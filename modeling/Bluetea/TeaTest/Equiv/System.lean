import Bluetea.TeaTest.System

/-!
# What the two processes know

The counters of the test process are determined by the checks it has done, those of the call it is in
included (`ChildInv`).  The pipe drops nothing, so the parent has read the beginning of what was sent
(`PipeInv`).  Without strikes (`calm`) the test process ends by returning, and otherwise an exit code
of zero still says that it did.
-/

namespace Bluetea.TeaTest

open BlueTest (exited wIfExited wIfSignaled wExitStatus)

/-- The checks of a list of entries. -/
def checks (run : Bool) (es : List TestEntry) : List Check := es.flatMap (·.checks run)

/-- The counters a run starts with. -/
def base (tests : List TestEntry) (run : Bool) : Globals :=
  if run then ⟨true, UInt32.ofNat (checks false tests).length, 0⟩ else ⟨false, 0, 0⟩

/-- The counters in a run, when `ks` are done. -/
def tally (tests : List TestEntry) (run : Bool) (ks : List Check) : Globals :=
  (base tests run).count ks

/-- What `fail` is when `ks` are done. -/
def failed (run : Bool) (ks : List Check) : Bool := run && !allPass ks

/-- How many reports are sent when `m` entries of a run are completed. -/
def sentAt (tests : List TestEntry) (run : Bool) (m : ℕ) : ℕ :=
  (if run then tests.length else 0) + m

/-- The counters when the test process returns. -/
def total (tests : List TestEntry) : Globals := tally tests true (checks true tests)

/-- What `run_test` returns. -/
def verdict (tests : List TestEntry) : Int := if allPass (checks true tests) then 0 else 1

theorem checks_concat (run : Bool) (front : List TestEntry) (e : TestEntry) :
    checks run (front ++ [e]) = checks run front ++ e.checks run := by
  rw [checks, List.flatMap_append, List.flatMap_singleton, ← checks]

theorem tally_append (tests : List TestEntry) (run : Bool) (ks ks' : List Check) :
    tally tests run (ks ++ ks') = (tally tests run ks).count ks' :=
  count_append _ _ _

@[simp] theorem tally_isExec (tests : List TestEntry) (run : Bool) (ks : List Check) :
    (tally tests run ks).isExec = run := by
  rw [tally, count_isExec]
  cases run <;> rfl

/-- The real run starts where the dry run has ended. -/
theorem tally_true_nil (tests : List TestEntry) :
    { tally tests false (checks false tests) with isExec := true } = tally tests true [] := by
  show (⟨true, 0 + _, 0⟩ : Globals) = ⟨true, UInt32.ofNat (checks false tests).length, 0 + 0⟩
  rw [UInt32.zero_add, UInt32.add_zero]

theorem failed_append (run : Bool) (ks ks' : List Check) :
    failed run (ks ++ ks') = (failed run ks || failed run ks') := by
  rw [failed, failed, failed, allPass_append]
  cases run <;> cases allPass ks <;> rfl

/-- What `run_test` makes of the value that an entry returns. -/
theorem failed_leave (run : Bool) (ks done : List Check) :
    (if run = true ∧ retAfter run done 0 ≠ 0 then true else failed run ks)
      = failed run (ks ++ done) := by
  rw [failed_append]
  have hret := retAfter_ne_zero run done
  cases run
  · rw [if_neg (fun h => Bool.false_ne_true h.1)]
    exact (Bool.or_false _).symm
  · rw [← failed] at hret
    cases hfail : failed true done
    · rw [if_neg (fun h => Bool.false_ne_true (hfail.symm.trans (hret.mp h.2))), Bool.or_false]
    · rw [if_pos ⟨rfl, hret.mpr hfail⟩, Bool.or_true]

/-! ### The test process -/

/-- The process returned, and not from its handler. -/
structure Complete (tests : List TestEntry) (code : Int) (g : Globals) (sent : List Point) : Prop where
  code_eq : code = verdict tests
  globals_eq : g = total tests
  sent_length : sent.length = 2 * tests.length

/-- What is known when the process has returned. -/
structure Returned (calm : Prop) (tests : List TestEntry) (code : Int) (g : Globals)
    (sent : List Point) : Prop where
  zero_or_one : code = 0 ∨ code = 1
  last : ∀ d ∈ sent.getLast?, d = g.data
  complete : calm ∨ code = 0 → Complete tests code g sent

/-- `front` is what the run has completed, and `done` what the call has done. -/
def ChildInv (calm : Prop) (tests : List TestEntry) (s : State) : Prop :=
  match s.phase with
  | .loop run entry fail => ∃ front, tests = front ++ entry ∧
      s.globals = tally tests run (checks run front) ∧
      s.sent.length = sentAt tests run front.length ∧
      fail = failed run (checks run front) ∧
      ∀ d ∈ s.sent.getLast?, d = s.globals.data
  | .call run entry fail todo ret => ∃ front e done, tests = front ++ e :: entry ∧
      e.checks run = done ++ todo ∧
      s.globals = tally tests run (checks run front ++ done) ∧
      s.sent.length = sentAt tests run front.length ∧
      fail = failed run (checks run front) ∧ ret = retAfter run done 0
  | .report run entry fail => ∃ front e, tests = front ++ e :: entry ∧
      s.globals = tally tests run (checks run (front ++ [e])) ∧
      s.sent.length = sentAt tests run front.length ∧
      fail = failed run (checks run (front ++ [e]))
  | .handler _ => ¬ calm ∧ s.sent.length < 2 * tests.length
  | .backtrace _ => ¬ calm ∧ ∀ d ∈ s.sent.getLast?, d = s.globals.data
  | .returned code => Returned calm tests code s.globals s.sent
  | .ended wstatus =>
      (∃ code, (wstatus = exited code ∨ wstatus = exited valgrindError) ∧
        Returned calm tests code s.globals s.sent) ∨ (wIfSignaled wstatus ∧ ¬ calm)

variable {calm : Prop} {tests : List TestEntry} {s s' : State}

theorem ChildInv.start (tests : List TestEntry) (capacity : ℕ) :
    ChildInv calm tests (.start tests capacity) := by
  refine ⟨[], rfl, rfl, rfl, rfl, ?_⟩
  intro d hd
  cases hd

/-- A strike ends the calm. -/
theorem Returned.struck {code : Int} {g : Globals} {sent : List Point}
    (h : Returned calm tests code g sent) : Returned False tests code g sent :=
  ⟨h.zero_or_one, h.last, fun hz => h.complete (Or.inr (hz.resolve_left id))⟩

theorem verdict_eq (tests : List TestEntry) :
    verdict tests = if failed true (checks true tests) then 1 else 0 := by
  rw [verdict, failed]
  cases allPass (checks true tests) <;> rfl

theorem getLast_concat {sent : List Point} {p d : Point} (h : d ∈ (sent ++ [p]).getLast?) : d = p := by
  rw [List.getLast?_concat] at h
  exact (Option.mem_some_iff.mp h).symm

theorem length_lt_of_call {front entry : List TestEntry} {e : TestEntry} {n : ℕ} {run : Bool}
    (htests : tests = front ++ e :: entry) (hn : n = sentAt tests run front.length) :
    n < 2 * tests.length := by
  have hfront : front.length < tests.length := by
    rw [htests, List.length_append, List.length_cons]
    omega
  rw [hn, sentAt]
  split_ifs <;> omega

theorem ChildInv.step (h : ChildInv calm tests s) (hstep : Step tests s s') :
    ChildInv calm tests s' := by
  cases hstep with
  | @enter run e entry fail g p sent q =>
    obtain ⟨front, htests, hg, hsent, hfail, -⟩ := h
    have hg : g = tally tests run (checks run front) := hg
    refine ⟨front, e, [], htests, ?_, ?_, hsent, hfail, ?_⟩
    · rw [tqAssertIsExec, hg, tally_isExec, List.nil_append]
    · rw [List.append_nil]
      exact hg
    · rw [retAfter]
      cases run <;> rfl
  | @check run entry fail k todo ret g p sent q =>
    obtain ⟨front, e, done, htests, he, hg, hsent, hfail, hret⟩ := h
    have hg : g = tally tests run (checks run front ++ done) := hg
    refine ⟨front, e, done ++ [k], htests, ?_, ?_, hsent, hfail, ?_⟩
    · rw [he, List.append_assoc, List.singleton_append]
    · show (k.exec ⟨ret, g⟩).globals = _
      rw [exec_globals, hg, ← tally_append, List.append_assoc]
    · rw [exec_ret, hg, tally_isExec, retAfter_append, hret]
  | @leave run entry fail ret g p sent q =>
    obtain ⟨front, e, done, htests, he, hg, hsent, hfail, hret⟩ := h
    -- no check is left, so `done` are all of the entry
    rw [List.append_nil] at he
    subst he
    refine ⟨front, e, htests, ?_, hsent, ?_⟩
    · rw [checks_concat]
      exact hg
    · rw [checks_concat, ← failed_leave, hfail, hret]
  | @send run entry fail g cap queued sent q hroom =>
    obtain ⟨front, e, htests, hg, hsent, hfail⟩ := h
    refine ⟨front ++ [e], ?_, hg, ?_, hfail, fun d => getLast_concat⟩
    · rw [htests, List.append_assoc, List.singleton_append]
    · have hsent : sent.length = sentAt tests run front.length := hsent
      rw [List.length_append, List.length_append, hsent]
      apply Nat.add_assoc
  | @endInit fail g p sent q =>
    obtain ⟨front, htests, hg, hsent, -, hlast⟩ := h
    -- no entry is left, so the dry run is complete
    rw [List.append_nil] at htests
    subst htests
    have hg : g = tally tests false (checks false tests) := hg
    refine ⟨[], rfl, ?_, ?_, rfl, hlast⟩
    · show { g with isExec := true } = tally tests true []
      rw [hg, tally_true_nil]
    · rw [hsent, sentAt, sentAt]
      apply Nat.add_comm
  | @endRun fail g p sent q =>
    obtain ⟨front, htests, hg, hsent, hfail, hlast⟩ := h
    rw [List.append_nil] at htests
    subst htests
    refine ⟨?_, hlast, fun _ => ⟨?_, hg, ?_⟩⟩
    · cases fail
      · exact Or.inl rfl
      · exact Or.inr rfl
    · rw [verdict_eq, hfail]
    · rw [hsent, sentAt, if_pos rfl, Nat.two_mul]
  | sendCrash hroom => exact ⟨h.1, fun d => getLast_concat⟩
  | raise hw => exact Or.inr ⟨hw, h.1⟩
  | exitHandler =>
    refine ⟨Or.inr rfl, h.2, ?_⟩
    intro hz
    rcases hz with hz | hz
    · exact absurd hz h.1
    · cases hz
  | exit => exact Or.inl ⟨_, Or.inl rfl, h⟩
  | exitValgrind => exact Or.inl ⟨_, Or.inr rfl, h⟩
  | wait => exact h
  | read => exact h
  | timeout => exact h

theorem ChildInv.strike (h : ChildInv calm tests s) (hstrike : Strike s s') :
    ChildInv False tests s' := by
  cases hstrike with
  | crash hsig =>
    obtain ⟨front, e, done, htests, -, -, hsent, -⟩ := h
    exact ⟨id, length_lt_of_call htests hsent⟩
  | kill hrun hw => exact Or.inr ⟨hw, id⟩

/-- Without the calm less is known. -/
theorem ChildInv.struck (h : ChildInv calm tests s) : ChildInv False tests s := by
  obtain ⟨ph, g, p, sent, q⟩ := s
  cases ph with
  | loop run entry fail => exact h
  | call run entry fail todo ret => exact h
  | report run entry fail => exact h
  | handler sig => exact ⟨id, h.2⟩
  | backtrace sig => exact ⟨id, h.2⟩
  | returned code => exact Returned.struck h
  | ended wstatus =>
    rcases h with ⟨code, hw, hret⟩ | ⟨hw, -⟩
    · exact Or.inl ⟨code, hw, hret.struck⟩
    · exact Or.inr ⟨hw, id⟩

/-! ### The pipe -/

/-- What the parent knows about how the process ended. -/
def Status (s : State) (code : Int) : Prop :=
  ∃ wstatus, s.phase = .ended wstatus ∧ wIfExited wstatus ∧ code = wExitStatus wstatus

/-- What the parent has read is the beginning of what was sent. -/
def ParentInv (s : State) : Prop :=
  match s.parent with
  | .waiting => s.pipe.queued = s.sent
  | .reading code buf => Status s code ∧ ∃ got, got ++ s.pipe.queued = s.sent ∧ buf = got.getLast?
  | .finished code buf => Status s code ∧ buf = s.sent.getLast?
  | .unknownError => ∃ wstatus, s.phase = .ended wstatus ∧ ¬ wIfExited wstatus

structure PipeInv (capacity : ℕ) (s : State) : Prop where
  capacity_eq : s.pipe.capacity = capacity
  fits : reportSize * s.sent.length ≤ capacity
  parent : ParentInv s

variable {capacity : ℕ}

theorem PipeInv.start (tests : List TestEntry) (capacity : ℕ) :
    PipeInv capacity (.start tests capacity) :=
  ⟨rfl, Nat.zero_le _, rfl⟩

/-- The parent waits as long as the process runs. -/
theorem PipeInv.waiting (h : PipeInv capacity s) (hrun : ∀ w, s.phase ≠ .ended w) :
    s.parent = .waiting ∧ s.pipe.queued = s.sent := by
  obtain ⟨ph, g, p, sent, q⟩ := s
  have hparent := h.parent
  cases q with
  | waiting => exact ⟨rfl, hparent⟩
  | reading code buf =>
    obtain ⟨⟨w, hw, -⟩, -⟩ := hparent
    exact absurd hw (hrun w)
  | finished code buf =>
    obtain ⟨⟨w, hw, -⟩, -⟩ := hparent
    exact absurd hw (hrun w)
  | unknownError =>
    obtain ⟨w, hw, -⟩ := hparent
    exact absurd hw (hrun w)

/-- The process moves on, with the pipe as it is. -/
theorem PipeInv.keep {ph ph' : Phase} {g g' : Globals} {p : Pipe} {sent : List Point} {q : Parent}
    (h : PipeInv capacity ⟨ph, g, p, sent, q⟩) (hrun : ∀ w, ph ≠ .ended w) :
    PipeInv capacity ⟨ph', g', p, sent, q⟩ := by
  obtain ⟨rfl, hqueued⟩ := h.waiting hrun
  exact ⟨h.capacity_eq, h.fits, hqueued⟩

/-- The process sends a report. -/
theorem PipeInv.send {ph ph' : Phase} {g g' : Globals} {cap : ℕ} {queued sent : List Point}
    {q : Parent} (h : PipeInv capacity ⟨ph, g, ⟨cap, queued⟩, sent, q⟩)
    (hrun : ∀ w, ph ≠ .ended w) (hroom : Pipe.HasRoom ⟨cap, queued⟩) (d : Point) :
    PipeInv capacity ⟨ph', g', ⟨cap, queued ++ [d]⟩, sent ++ [d], q⟩ := by
  obtain ⟨rfl, hqueued⟩ := h.waiting hrun
  have hqueued : queued = sent := hqueued
  have hcap : cap = capacity := h.capacity_eq
  subst hqueued hcap
  refine ⟨rfl, ?_, rfl⟩
  rw [List.length_append]
  exact hroom

theorem PipeInv.step (h : PipeInv capacity s) (hstep : Step tests s s') : PipeInv capacity s' := by
  cases hstep with
  | send hroom => exact h.send nofun hroom _
  | sendCrash hroom => exact h.send nofun hroom _
  | @wait wstatus g p sent =>
    have hqueued : p.queued = sent := h.parent
    refine ⟨h.capacity_eq, h.fits, ?_⟩
    cases hw : wIfExited wstatus with
    | false => exact ⟨wstatus, rfl, by rw [hw]; exact Bool.false_ne_true⟩
    | true => exact ⟨⟨wstatus, rfl, hw, rfl⟩, [], hqueued, rfl⟩
  | @read ph g cap d queued sent code buf =>
    obtain ⟨hstatus, got, hgot, -⟩ := h.parent
    refine ⟨h.capacity_eq, h.fits, hstatus, got ++ [d], ?_, ?_⟩
    · rw [← hgot, List.append_assoc, List.singleton_append]
    · rw [List.getLast?_concat]
  | timeout =>
    obtain ⟨hstatus, got, hgot, hbuf⟩ := h.parent
    -- the pipe is empty, so the buffer holds the last report of all
    rw [List.append_nil] at hgot
    exact ⟨h.capacity_eq, h.fits, hstatus, by rw [← hgot]; exact hbuf⟩
  | _ => exact h.keep nofun

theorem PipeInv.strike (h : PipeInv capacity s) (hstrike : Strike s s') : PipeInv capacity s' := by
  cases hstrike with
  | crash => exact h.keep nofun
  | kill hrun => exact h.keep hrun

/-! ### Runs -/

/-- What is known of a state. -/
structure Inv (calm : Prop) (tests : List TestEntry) (capacity : ℕ) (s : State) : Prop where
  child : ChildInv calm tests s
  pipe : PipeInv capacity s

theorem Inv.start (calm : Prop) (tests : List TestEntry) (capacity : ℕ) :
    Inv calm tests capacity (.start tests capacity) :=
  ⟨.start tests capacity, .start tests capacity⟩

theorem Inv.step (h : Inv calm tests capacity s) (hstep : Step tests s s') :
    Inv calm tests capacity s' :=
  ⟨h.child.step hstep, h.pipe.step hstep⟩

theorem Inv.strike (h : Inv calm tests capacity s) (hstrike : Strike s s') :
    Inv False tests capacity s' :=
  ⟨h.child.strike hstrike, h.pipe.strike hstrike⟩

theorem Inv.steps (h : Inv calm tests capacity s) (hsteps : Steps tests s s') :
    Inv calm tests capacity s' := by
  induction hsteps with
  | refl => exact h
  | tail _ hstep ih => exact ih.step hstep

theorem Inv.runs (h : Inv calm tests capacity s) (hruns : Runs tests s s') :
    Inv False tests capacity s' := by
  induction hruns with
  | refl => exact ⟨h.child.struck, h.pipe⟩
  | tail _ hstep ih => exact hstep.elim ih.step ih.strike

theorem Steps.runs (h : Steps tests s s') : Runs tests s s' := by
  induction h with
  | refl => exact .refl
  | tail _ hstep ih => exact ih.tail (Or.inl hstep)

theorem Reachable.inv (h : Reachable tests capacity s) : Inv False tests capacity s :=
  (Inv.start False tests capacity).runs h

end Bluetea.TeaTest
