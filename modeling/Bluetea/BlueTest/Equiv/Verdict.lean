import Bluetea.BlueTest.Process
import Mathlib.Algebra.Group.Nat.Defs

/-!
# The verdict of a test

The counters add up what the checks of the suite come to (`testLoop_data`), modulo `2^32`.  When
no report is lost, the parent ends up with the last one, which holds the final counters.  The
value an entry returns is dropped, so only the count of failed dynamic checks makes the exit code
non-zero (`verdict_eq`).
-/

namespace Bluetea.BlueTest

def Check.isStatic : Check → Bool
  | assert _ | assertS _ => true
  | assertDyn _ | assertDynS _ => false

def Check.passes : Check → Bool
  | assert expr | assertS expr | assertDyn expr | assertDynS expr => expr

/-! ### Counting -/

def passedStatic (cs : List Check) : ℕ := cs.countP fun c => c.isStatic && c.passes

def failedStatic (cs : List Check) : ℕ := cs.countP fun c => c.isStatic && !c.passes

def passedDyn (cs : List Check) : ℕ := cs.countP fun c => !c.isStatic && c.passes

def failedDyn (cs : List Check) : ℕ := cs.countP fun c => !c.isStatic && !c.passes

/-- The counters after the checks of one run. -/
def BluetestData.add (d : BluetestData) (run : Bool) (cs : List Check) : BluetestData :=
  if run then
    { d with
      nPass := d.nPass + .ofNat (passedStatic cs)
      dynFail := d.dynFail + .ofNat (failedDyn cs)
      dynPass := d.dynPass + .ofNat (passedDyn cs) }
  else { d with nTest := d.nTest + .ofNat (cs.countP Check.isStatic) }

@[simp] theorem BluetestData.add_nil (d : BluetestData) (run : Bool) : d.add run [] = d := by
  cases run <;> simp [add, passedStatic, failedDyn, passedDyn]

theorem BluetestData.add_append (d : BluetestData) (run : Bool) (cs cs' : List Check) :
    d.add run (cs ++ cs') = (d.add run cs).add run cs' := by
  cases run <;>
    simp [add, passedStatic, failedDyn, passedDyn, UInt32.ofNat_add, UInt32.add_assoc]

/-- One check. -/
theorem Check.data_exec (run : Bool) (f : Frame) (c : Check) :
    (c.exec run f).data = f.data.add run [c] := by
  cases run
  · -- the dry run counts the predictable checks
    cases c <;>
      simp [exec, tqAssert, tqAssertS, tqAssertDyn, tqAssertDynS, staticCheck, dynamicCheck,
        BluetestData.add, isStatic]
  · -- the real run evaluates every check
    cases c with
    | assert expr | assertS expr =>
      cases expr <;>
        simp [exec, tqAssert, tqAssertS, staticCheck, printTest, printTestS, BluetestData.add,
          passedStatic, failedDyn, passedDyn, isStatic, passes]
    | assertDyn expr | assertDynS expr =>
      cases expr <;>
        simp [exec, tqAssertDyn, tqAssertDynS, dynamicCheck, printTest, printTestS,
          BluetestData.add, passedStatic, failedDyn, passedDyn, isStatic, passes]

/-- The checks of an entry. -/
theorem data_foldl_exec (run : Bool) (cs : List Check) (f : Frame) :
    (cs.foldl (Check.exec run) f).data = f.data.add run cs := by
  induction cs generalizing f with
  | nil => rw [BluetestData.add_nil, List.foldl_nil]
  | cons c cs ih =>
    rw [List.foldl_cons, ih, Check.data_exec, ← BluetestData.add_append]
    rfl

/-! ### The spawned process -/

/-- All checks of a run. -/
def checks (run : Bool) (suite : List BluetestEntry) : List Check :=
  suite.flatMap fun e => e.checks run

/-- The reports of a run that starts with the counters `d`. -/
def reports (run : Bool) : List BluetestEntry → BluetestData → List BluetestData
  | [], _ => []
  | e :: suite, d => d.add run (e.checks run) :: reports run suite (d.add run (e.checks run))

theorem length_reports (run : Bool) (suite : List BluetestEntry) (d : BluetestData) :
    (reports run suite d).length = suite.length := by
  induction suite generalizing d with
  | nil => rfl
  | cons e suite ih => rw [reports, List.length_cons, ih, List.length_cons]

/-- The last report holds the final counters. -/
theorem getLastD_reports (run : Bool) (suite : List BluetestEntry) (d : BluetestData) :
    (reports run suite d).getLastD d = d.add run (checks run suite) := by
  induction suite generalizing d with
  | nil => rw [checks, List.flatMap_nil, BluetestData.add_nil]; rfl
  | cons e suite ih =>
    rw [reports, List.getLastD_cons, ih, checks, checks, List.flatMap_cons,
      BluetestData.add_append]

theorem Pipe.write_of_room {p : Pipe} (h : reportSize * (p.queued.length + 1) ≤ p.capacity)
    (data : BluetestData) : (p.write data).2 = { p with queued := p.queued ++ [data] } := by
  rw [write, if_pos h]

/-- A run adds up its checks, and sends its reports if there is room for them. -/
theorem testLoop_eq (run : Bool) {suite : List BluetestEntry} {c : Child} (d : BluetestData)
    (hroom : reportSize * (c.pipe.queued.length + suite.length) ≤ c.pipe.capacity) :
    (testLoop run suite d c).1 = d.add run (checks run suite) ∧
      (testLoop run suite d c).2.pipe
        = { c.pipe with queued := c.pipe.queued ++ reports run suite d } := by
  induction suite generalizing d c with
  | nil =>
    rw [checks, List.flatMap_nil, BluetestData.add_nil, reports, List.append_nil]
    exact ⟨rfl, rfl⟩
  | cons e suite ih =>
    have hdata : (e.call run d).2 = d.add run (e.checks run) :=
      data_foldl_exec run (e.checks run) ⟨0, d⟩
    have hpipe : (c.pipe.write (d.add run (e.checks run))).2
        = { c.pipe with queued := c.pipe.queued ++ [d.add run (e.checks run)] } := by
      apply Pipe.write_of_room
      rw [List.length_cons] at hroom
      unfold reportSize at hroom ⊢
      omega
    rw [testLoop]
    dsimp only
    rw [hdata, hpipe]
    have hroom' : reportSize
        * ((c.pipe.queued ++ [d.add run (e.checks run)]).length + suite.length)
          ≤ c.pipe.capacity := by
      rw [List.length_append, List.length_singleton, Nat.add_assoc, Nat.add_comm 1]
      exact hroom
    -- the other entries run on the pipe that holds one report more
    obtain ⟨hlast, hqueue⟩ := ih (c := ⟨d, run, c.pipe.capacity, _⟩) _ hroom'
    rw [hlast, hqueue, reports, checks, checks, List.flatMap_cons, BluetestData.add_append]
    refine ⟨rfl, ?_⟩
    dsimp only
    rw [List.append_assoc]
    rfl

variable {suite : List BluetestEntry}

theorem initTest_eq {c : Child}
    (hroom : reportSize * (c.pipe.queued.length + suite.length) ≤ c.pipe.capacity) :
    ∃ c', initTest suite c = (0, c') ∧
      c'.gData = BluetestData.zero.add false (checks false suite) ∧
      c'.pipe = { c.pipe with queued := c.pipe.queued ++ reports false suite .zero } := by
  obtain ⟨hdata, hpipe⟩ := testLoop_eq false .zero hroom
  exact ⟨_, rfl, hdata, hpipe⟩

theorem runTest_eq {c : Child}
    (hroom : reportSize * (c.pipe.queued.length + suite.length) ≤ c.pipe.capacity) :
    ∃ c', runTest suite c = (0, c') ∧ c'.gData = c.gData.add true (checks true suite) ∧
      c'.pipe = { c.pipe with queued := c.pipe.queued ++ reports true suite c.gData } := by
  obtain ⟨hdata, hpipe⟩ := testLoop_eq true c.gData hroom
  exact ⟨_, rfl, hdata, hpipe⟩

/-- The counters after both runs. -/
def total (suite : List BluetestEntry) : BluetestData :=
  (BluetestData.zero.add false (checks false suite)).add true (checks true suite)

theorem getLastD_append {α : Type*} (l l' : List α) (d : α) :
    (l ++ l').getLastD d = l'.getLastD (l.getLastD d) := by
  induction l generalizing d with
  | nil => rfl
  | cons a l ih => rw [List.cons_append, List.getLastD_cons, ih, List.getLastD_cons]

/-- The spawned process returns `0` whatever the checks come to, and the last of its reports holds
the counters after both runs. -/
theorem main_eq {capacity : ℕ} (pipeFdArg : CStr)
    (hcap : reportSize * (2 * suite.length) ≤ capacity) :
    ∃ c, main [doTestInternal, pipeFdArg] suite 0 (.start capacity) = (0, c) ∧
      c.pipe.queued.getLastD .zero = total suite := by
  have huser : CStr.strncmp 9 doTestInternal.bytes doTest ≠ 0 := by decide
  have hframework : CStr.strncmp 17 doTestInternal.bytes doTestInternal.bytes = 0 := by decide
  unfold reportSize at hcap
  have hroom : reportSize * ((Child.start capacity).pipe.queued.length + suite.length)
      ≤ (Child.start capacity).pipe.capacity := by
    show 16 * (0 + suite.length) ≤ capacity
    omega
  obtain ⟨c₁, hinit, hdry, hpipe₁⟩ := initTest_eq hroom
  -- as many reports again fit behind those of the dry run
  have hroom₁ : reportSize * (c₁.pipe.queued.length + suite.length) ≤ c₁.pipe.capacity := by
    rw [hpipe₁]
    show 16 * ((reports false suite .zero).length + suite.length) ≤ capacity
    rw [length_reports]
    omega
  obtain ⟨c₂, hrun, -, hpipe₂⟩ := runTest_eq hroom₁
  refine ⟨c₂, ?_, ?_⟩
  · -- `do_test` is not a prefix that counts: nine bytes are compared
    rw [main, if_neg huser, if_pos hframework]
    simp only [hinit]
    exact hrun
  · rw [hpipe₂, hpipe₁]
    show (reports false suite .zero ++ reports true suite c₁.gData).getLastD .zero = _
    -- with no entries there are no reports, and all counters are zero
    rw [getLastD_append, getLastD_reports, hdry, getLastD_reports]
    rfl

/-! ### The parent -/

/-- The parent reads all reports and keeps the last one. -/
theorem handleWaitLoop_queued (exitCode : Int) (queued : List BluetestData) (d : BluetestData) :
    handleWaitLoop exitCode (queued.map .readData ++ [.pollTimeout]) d
      = some (exitCode, queued.getLastD d) := by
  induction queued generalizing d with
  | nil => rfl
  | cons report queued ih =>
    rw [List.map_cons, List.cons_append, handleWaitLoop, ih, List.getLastD_cons]

/-! ### The verdict -/

/-- The exit code tells whether the counter of failed dynamic checks is zero. -/
theorem verdict_eq {capacity : ℕ} (pipeFdArg : CStr)
    (hcap : reportSize * (2 * suite.length) ≤ capacity) :
    verdict capacity pipeFdArg suite = some (if (total suite).dynFail = 0 then 0 else 1) := by
  obtain ⟨c, hmain, hlast⟩ := main_eq pipeFdArg hcap
  rw [verdict, hmain]
  show (handleWaitLoop 0 c.pipe.answers .zero).bind _ = _
  rw [Pipe.answers, handleWaitLoop_queued, hlast]
  by_cases hzero : (total suite).dynFail = 0
  · rw [if_pos hzero]
    simp [hzero]
  · have hpos : (total suite).dynFail > 0 := UInt32.pos_iff_ne_zero.mpr hzero
    rw [if_neg hzero]
    simp [hpos]

/-- The counter wraps. -/
theorem dynFail_total : (total suite).dynFail = 0 ↔ 2 ^ 32 ∣ failedDyn (checks true suite) := by
  show (0 : UInt32) + .ofNat (failedDyn (checks true suite)) = 0 ↔ _
  rw [UInt32.zero_add, ← UInt32.toNat_inj, UInt32.toNat_ofNat', UInt32.toNat_zero,
    Nat.dvd_iff_mod_eq_zero]

/-- No check of the real run fails. -/
def AllPass (suite : List BluetestEntry) : Prop := ∀ c ∈ checks true suite, c.passes

theorem allPass_iff : AllPass suite ↔
    failedStatic (checks true suite) = 0 ∧ failedDyn (checks true suite) = 0 := by
  rw [AllPass, failedStatic, failedDyn, List.countP_eq_zero, List.countP_eq_zero, ← forall₂_and]
  refine forall₂_congr fun c _ => ?_
  cases c.isStatic <;> cases c.passes <;> simp

/-- The predictable checks that an entry counts in the dry run are those it evaluates in the real
run. -/
def BluetestEntry.Counted (e : BluetestEntry) : Prop :=
  e.dry.countP Check.isStatic = e.real.countP Check.isStatic

theorem passedStatic_add_failedStatic (cs : List Check) :
    passedStatic cs + failedStatic cs = cs.countP Check.isStatic := by
  induction cs with
  | nil => rfl
  | cons c cs ih =>
    unfold passedStatic failedStatic at ih ⊢
    rw [List.countP_cons, List.countP_cons, List.countP_cons]
    cases c.isStatic <;> cases c.passes <;> simp <;> omega

/-- The exit code is `0` exactly for the tests without a failed check, except that failed
predictable checks alone go unnoticed, and so does a count of failed dynamic checks that wraps to
zero. -/
theorem verdict_sound_iff {capacity : ℕ} (pipeFdArg : CStr)
    (hcap : reportSize * (2 * suite.length) ≤ capacity) :
    ∃ exitCode, verdict capacity pipeFdArg suite = some exitCode ∧
      ((exitCode = 0 ↔ AllPass suite) ↔
        (failedStatic (checks true suite) = 0 ∨ failedDyn (checks true suite) ≠ 0) ∧
        (failedDyn (checks true suite) = 0 ∨ ¬2 ^ 32 ∣ failedDyn (checks true suite))) := by
  refine ⟨_, verdict_eq pipeFdArg hcap, ?_⟩
  have hcode : (if (total suite).dynFail = 0 then (0 : Int) else 1) = 0 ↔
      2 ^ 32 ∣ failedDyn (checks true suite) := by
    rw [← dynFail_total]
    split <;> simp [*]
  rw [hcode, allPass_iff]
  by_cases hdyn : failedDyn (checks true suite) = 0
  · -- then the exit code is `0`, which is right if no predictable check failed
    rw [hdyn]
    simp
  · -- a check did fail, and the exit code should not be `0`
    simp [hdyn]

/-- A predictable check that fails, and one that passes. -/
def failing : List BluetestEntry :=
  [⟨[.assert false, .assertS true], [.assert false, .assertS true]⟩]

/-- The descriptor `"4"`. -/
def fdArg : CStr := ⟨literal ['4'], CStr.ne_zero_of_all (by decide)⟩

theorem verdict_sound_iff_failing : ∃ exitCode, verdict 65536 fdArg failing = some exitCode ∧
    ((exitCode = 0 ↔ AllPass failing) ↔
      (failedStatic (checks true failing) = 0 ∨ failedDyn (checks true failing) ≠ 0) ∧
      (failedDyn (checks true failing) = 0 ∨ ¬2 ^ 32 ∣ failedDyn (checks true failing))) :=
  verdict_sound_iff fdArg (by decide)

/-- The suite fails and the exit code is `0`. -/
theorem failing_passes : (∀ e ∈ failing, e.Counted) ∧
    reportSize * (2 * failing.length) ≤ 65536 ∧ ¬AllPass failing ∧
    verdict 65536 fdArg failing = some 0 := by
  refine ⟨?_, by decide, ?_, by decide +kernel⟩
  · intro e he
    rw [List.mem_singleton.mp he]
    rfl
  · intro h
    exact absurd (h (.assert false) (List.mem_cons_self ..)) (by decide)

end Bluetea.BlueTest
