import Bluetea.TeaTest.Equiv.Verdict
import Mathlib.Algebra.Group.Nat.Defs

/-!
# When the test process waits for ever

The parent reads nothing before the test process has ended, and the test process waits when the pipe
is full.  It sends two reports for every entry, so that is a deadlock exactly when these do not fit
into the pipe (`teaTest_deadlock`).  Every run ends (`teaTest_ends`): each step makes a measure smaller
that counts the checks which are left, and a report twice, for it is sent and read.
-/

namespace Bluetea.TeaTest

open BlueTest (exited wIfExited wIfSignaled wExitStatus)

variable {calm : Prop} {tests : List TestEntry} {capacity : ℕ} {s s' : State}

/-! ### The measure -/

/-- The calls of `entry`, each with its report. -/
def callsWeight (run : Bool) (entry : List TestEntry) : ℕ :=
  (checks run entry).length + 4 * entry.length

/-- The loop over `entry`, and what is behind it. -/
def loopWeight (tests : List TestEntry) (run : Bool) (entry : List TestEntry) : ℕ :=
  callsWeight run entry + if run then 2 else callsWeight true tests + 3

def Phase.weight (tests : List TestEntry) : Phase → ℕ
  | loop run entry _ => loopWeight tests run entry
  | call run entry _ todo _ => loopWeight tests run entry + todo.length + 3
  | report run entry _ => loopWeight tests run entry + 2
  | handler _ => 4
  | backtrace _ => 2
  | returned _ => 1
  | ended _ => 0

def Parent.weight : Parent → ℕ
  | waiting => 2
  | reading .. => 1
  | finished .. | unknownError => 0

def measure (tests : List TestEntry) (s : State) : ℕ :=
  s.phase.weight tests + s.pipe.queued.length + s.parent.weight

theorem loopWeight_cons (tests : List TestEntry) (run : Bool) (e : TestEntry)
    (entry : List TestEntry) :
    loopWeight tests run (e :: entry) = loopWeight tests run entry + (e.checks run).length + 4 := by
  have hcalls : callsWeight run (e :: entry) = callsWeight run entry + (e.checks run).length + 4 := by
    rw [callsWeight, callsWeight, checks, List.flatMap_cons, List.length_append, ← checks,
      List.length_cons]
    omega
  rw [loopWeight, hcalls, loopWeight]
  omega

theorem two_le_loopWeight (tests : List TestEntry) (run : Bool) (entry : List TestEntry) :
    2 ≤ loopWeight tests run entry := by
  rw [loopWeight]
  split_ifs <;> omega

/-- How long a run is at most. -/
def maxSteps (tests : List TestEntry) : ℕ :=
  (checks false tests).length + (checks true tests).length + 8 * tests.length + 5

theorem measure_start (tests : List TestEntry) (capacity : ℕ) :
    measure tests (.start tests capacity) = maxSteps tests := by
  show loopWeight tests false tests + 0 + 2 = maxSteps tests
  rw [loopWeight, if_neg Bool.false_ne_true, callsWeight, callsWeight, maxSteps]
  omega

theorem measure_step (h : ChildInv calm tests s) (hstep : Step tests s s') :
    measure tests s' < measure tests s := by
  cases hstep with
  | @enter run e entry fail g p sent q =>
    obtain ⟨front, -, hg, -⟩ := h
    -- the run that `is_exec` names is the one the process is in
    have hrun : tqAssertIsExec g = run := by
      rw [tqAssertIsExec, show g = _ from hg, tally_isExec]
    simp only [measure, Phase.weight, loopWeight_cons, hrun]
    omega
  | check =>
    simp only [measure, Phase.weight, List.length_cons]
    omega
  | leave =>
    simp only [measure, Phase.weight, List.length_nil]
    omega
  | send =>
    simp only [measure, Phase.weight, List.length_append, List.length_singleton]
    omega
  | endInit =>
    simp only [measure, Phase.weight, loopWeight, if_true, Bool.false_eq_true, if_false]
    omega
  | endRun =>
    simp only [measure, Phase.weight, loopWeight, if_true]
    omega
  | sendCrash =>
    simp only [measure, Phase.weight, List.length_append, List.length_singleton]
    omega
  | raise =>
    simp only [measure, Phase.weight]
    omega
  | exitHandler =>
    simp only [measure, Phase.weight]
    omega
  | exit =>
    simp only [measure, Phase.weight]
    omega
  | exitValgrind =>
    simp only [measure, Phase.weight]
    omega
  | wait =>
    simp only [measure]
    split_ifs <;> simp only [Parent.weight] <;> omega
  | read =>
    simp only [measure, Parent.weight, List.length_cons]
    omega
  | timeout =>
    simp only [measure, Parent.weight]
    omega

theorem measure_strike (hstrike : Strike s s') : measure tests s' < measure tests s := by
  cases hstrike with
  | @crash run entry fail todo ret g p sent q sig hsig =>
    have hloop := two_le_loopWeight tests run entry
    simp only [measure, Phase.weight]
    omega
  | @kill ph g p sent q wstatus hrun hw =>
    -- wherever the child is, ending at once is less than what it had before it
    have hpos : 0 < ph.weight tests := by
      cases ph with
      | loop run entry fail => exact Nat.lt_of_lt_of_le Nat.two_pos (two_le_loopWeight tests run entry)
      | ended w => exact absurd rfl (hrun w)
      | _ => apply Nat.succ_pos
    simp only [measure]
    show 0 + _ + _ < _
    omega

/-- **Every run ends**, with or without strikes. -/
theorem teaTest_ends {k : ℕ} (h : RunOf tests (.start tests capacity) k s) :
    k ≤ maxSteps tests := by
  have hless : ∀ s s' : State, Inv False tests capacity s → (Step tests s s' ∨ Strike s s') →
      Inv False tests capacity s' ∧ measure tests s' < measure tests s := by
    rintro s s' hs (hstep | hstrike)
    · exact ⟨hs.step hstep, measure_step hs.child hstep⟩
    · exact ⟨hs.strike hstrike, measure_strike hstrike⟩
  obtain ⟨-, hle⟩ := h.add_measure_le hless (Inv.start False tests capacity)
  rw [measure_start] at hle
  omega

theorem teaTest_ends_killed : 3 ≤ maxSteps [⟨[.assertS true], [.assertS true]⟩] :=
  have hkill : Strike ⟨.call false [] false [] 0, ⟨false, 1, 0⟩, ⟨16, []⟩, [], .waiting⟩
      ⟨.ended 9, ⟨false, 1, 0⟩, ⟨16, []⟩, [], .waiting⟩ := .kill nofun (by decide)
  teaTest_ends (.step (.step (.step .start (Or.inl .enter)) (Or.inl .check)) (Or.inr hkill))

/-! ### Deadlocks -/

/-- The only thing that either process waits for is room in the pipe. -/
theorem step_or_full (tests : List TestEntry) (hret : s.parent.ret? = none) :
    (∃ s', Step tests s s') ∨
      (∃ run entry fail, s.phase = .report run entry fail) ∧ ¬ s.pipe.HasRoom ∨
      (∃ sig, s.phase = .handler sig) ∧ ¬ s.pipe.HasRoom := by
  obtain ⟨ph, g, ⟨cap, queued⟩, sent, q⟩ := s
  cases ph with
  | loop run entry fail =>
    apply Or.inl
    cases entry with
    | nil =>
      cases run
      · exact ⟨_, .endInit⟩
      · exact ⟨_, .endRun⟩
    | cons e entry => exact ⟨_, .enter⟩
  | call run entry fail todo ret =>
    apply Or.inl
    cases todo with
    | nil => exact ⟨_, .leave⟩
    | cons k todo => exact ⟨_, .check⟩
  -- the two places at which the process may have to wait
  | report run entry fail =>
    by_cases hroom : Pipe.HasRoom ⟨cap, queued⟩
    · exact Or.inl ⟨_, .send hroom⟩
    · exact Or.inr (Or.inl ⟨⟨run, entry, fail, rfl⟩, hroom⟩)
  | handler sig =>
    by_cases hroom : Pipe.HasRoom ⟨cap, queued⟩
    · exact Or.inl ⟨_, .sendCrash hroom⟩
    · exact Or.inr (Or.inr ⟨⟨sig, rfl⟩, hroom⟩)
  | backtrace sig => exact Or.inl ⟨_, .exitHandler⟩
  | returned code => exact Or.inl ⟨_, .exit⟩
  | ended wstatus =>
    apply Or.inl
    cases q with
    | waiting => exact ⟨_, .wait⟩
    | reading code buf =>
      cases queued with
      | nil => exact ⟨_, .timeout⟩
      | cons d queued => exact ⟨_, .read⟩
    | finished code buf => cases hret
    | unknownError => cases hret

/-- There is room when all reports fit. -/
theorem hasRoom (hpipe : PipeInv capacity s) (hrun : ∀ w, s.phase ≠ .ended w)
    (hlt : s.sent.length < 2 * tests.length)
    (hcap : reportSize * (2 * tests.length) ≤ capacity) : s.pipe.HasRoom := by
  rw [Pipe.HasRoom, hpipe.capacity_eq, (hpipe.waiting hrun).2]
  exact Nat.le_trans (Nat.mul_le_mul_left _ hlt) hcap

theorem not_stuck (h : Inv False tests capacity s)
    (hcap : reportSize * (2 * tests.length) ≤ capacity) : ¬ Stuck tests s := by
  rintro ⟨hret, hstuck⟩
  have hchild := h.child
  rcases step_or_full tests hret with
    ⟨s', hstep⟩ | ⟨⟨run, entry, fail, hph⟩, hroom⟩ | ⟨⟨sig, hph⟩, hroom⟩
  · exact hstuck s' hstep
  · -- the report of `e` has not been sent, so there are not yet two for each entry
    rw [ChildInv, hph] at hchild
    obtain ⟨front, e, htests, -, hsent, -⟩ := hchild
    apply hroom
    apply hasRoom h.pipe _ (length_lt_of_call htests hsent) hcap
    intro w hw
    rw [hph] at hw
    cases hw
  · rw [ChildInv, hph] at hchild
    apply hroom
    apply hasRoom h.pipe _ hchild.2 hcap
    intro w hw
    rw [hph] at hw
    cases hw

/-- Without strikes the parent only returns when all reports got through. -/
theorem ret?_eq_none (h : Inv True tests capacity s)
    (hcap : capacity < reportSize * (2 * tests.length)) : s.parent.ret? = none := by
  by_contra hne
  obtain ⟨ret, hret⟩ := Option.ne_none_iff_exists'.mp hne
  rcases ret?_eq_some hret with ⟨buf, hq⟩ | ⟨hq, -⟩
  · obtain ⟨-, code, hreturned, -⟩ := h.finished hq
    have hfits := h.pipe.fits
    rw [(hreturned.complete (Or.inl trivial)).sent_length] at hfits
    omega
  · exact h.ne_unknownError hq

/-- **Deadlocks**: the processes can get stuck exactly when the reports do not fit into the pipe, and
then they do so in every run without strikes. -/
theorem teaTest_deadlock (tests : List TestEntry) (capacity : ℕ) :
    ((∃ s, Reachable tests capacity s ∧ Stuck tests s) ↔
      capacity < reportSize * (2 * tests.length)) ∧
    (capacity < reportSize * (2 * tests.length) → ∀ s, Steps tests (.start tests capacity) s →
      s.parent.ret? = none) := by
  have hnone : capacity < reportSize * (2 * tests.length) →
      ∀ s, Steps tests (.start tests capacity) s → s.parent.ret? = none :=
    fun hcap s hsteps => ret?_eq_none ((Inv.start True tests capacity).steps hsteps) hcap
  refine ⟨⟨?_, fun hcap => ?_⟩, hnone⟩
  · rintro ⟨s, hreach, hstuck⟩
    by_contra hcap
    exact not_stuck hreach.inv (Nat.le_of_not_lt hcap) hstuck
  · -- a run without strikes that is taken to its end
    obtain ⟨s, hsteps, hlast⟩ := Machine.exists_last
      (fun s s' (hs : Inv True tests capacity s) hstep =>
        ⟨hs.step hstep, measure_step hs.child hstep⟩) (Inv.start True tests capacity)
    exact ⟨s, Steps.runs hsteps, hnone hcap s hsteps, hlast⟩

theorem teaTest_deadlock_full : ∃ s, Reachable [⟨[], [.assert false]⟩] 15 s ∧
    Stuck [⟨[], [.assert false]⟩] s :=
  (teaTest_deadlock _ _).1.mpr (by decide)

end Bluetea.TeaTest
