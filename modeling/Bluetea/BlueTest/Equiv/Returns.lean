import Bluetea.BlueTest.Equiv.Crash
import Bluetea.BlueTest.Equiv.LastReport
import Mathlib.Algebra.Group.Nat.Defs

/-!
# What is returned

`handle_wait` returns zero exactly in the runs without a crash whose last report that got through
counts no failed dynamic check, modulo `2^32` (`handleWait_returns_zero_iff`).  With `n` entries the
dry run takes the room of `n` reports, so what the entries behind the first `capacity / 16 - n` come to
is lost, and predictable checks do not matter at all.
-/

namespace Bluetea.BlueTest

/-- What `handle_wait` returns. -/
def Parent.ret? : Parent → Option Int
  | finished code data => some (if code = 0 ∧ data.dynFail > 0 then 1 else code)
  | _ => none

variable {suite : List BluetestEntry} {capacity : ℕ} {s : State Check}

/-! ### The counter of the last report -/

/-- The entries of the real run whose reports get through. -/
def reported (capacity : ℕ) (suite : List BluetestEntry) : List BluetestEntry :=
  suite.take (capacity / reportSize - suite.length)

theorem getLastD_take_reportsTo_lt {κ : Type*} {move : Bool → Frame → κ → Frame}
    {suite : List (Bool → List κ)} {n : ℕ} (h : n ≤ suite.length) :
    ((reportsTo move suite true suite).take n).getLastD .zero
      = tally move suite false (suite.take n) := by
  rw [← getLastD_reportsTo, reportsTo, if_pos rfl, List.take_append_of_le_length
    (by rwa [length_afterEach]), take_afterEach]
  rfl

theorem dynFail_take_reportsTo (suite : List BluetestEntry) (n : ℕ) :
    (((reportsTo Check.exec (suite.map BluetestEntry.checks) true
        (suite.map BluetestEntry.checks)).take n).getLastD .zero).dynFail.toNat
      = failedDyn (checks true (suite.take (n - suite.length))) % 2 ^ 32 := by
  have hlen : (suite.map BluetestEntry.checks).length = suite.length := List.length_map _
  rcases Nat.le_total suite.length n with hle | hle
  · rw [getLastD_take_reportsTo (by rwa [hlen]), hlen, ← List.map_take]
    exact (crashTotals_tally true suite _).dynFail
  · -- no report of the real run gets through, and in the dry run nothing fails
    rw [getLastD_take_reportsTo_lt (by rwa [hlen]), ← List.map_take,
      (crashTotals_tally false suite _).dynFail, Nat.sub_eq_zero_of_le hle]
    rfl

theorem dynFail_finished {status code : Int} {data : BluetestData}
    (h : Reachable Check.exec (suite.map BluetestEntry.checks) capacity s)
    (hret : s.phase = .returned status) (hdone : s.parent = .finished code data) :
    data.dynFail = 0 ↔ 2 ^ 32 ∣ failedDyn (checks true (reported capacity suite)) := by
  rw [finished_data h hdone, returned_sent h hret, ← UInt32.toNat_inj, dynFail_take_reportsTo,
    UInt32.toNat_zero, ← Nat.dvd_iff_mod_eq_zero]
  rfl

/-! ### Zero -/

theorem ret?_eq_some {p : Parent} {ret : Int} (h : p.ret? = some ret) :
    ∃ code data, p = .finished code data ∧
      ret = if code = 0 ∧ data.dynFail > 0 then 1 else code := by
  cases p with
  | finished code data => exact ⟨code, data, rfl, (Option.some.inj h).symm⟩
  | _ => cases h

theorem finished_code {κ : Type*} {move : Bool → Frame → κ → Frame} {suite : List (Bool → List κ)}
    {s : State κ} {code : Int} {data : BluetestData} (h : Reachable move suite capacity s)
    (hdone : s.parent = .finished code data) :
    ∃ wstatus, s.phase.wstatus? = some wstatus ∧ code = exitCode wstatus := by
  obtain ⟨ph, c, sent, p⟩ := s
  subst hdone
  obtain ⟨wstatus, hw, hcode, -⟩ := h.pipeInv.parent
  exact ⟨wstatus, hw, hcode⟩

/-- The exit code that stands for a crash is not zero. -/
theorem exitCode_ne_zero {wstatus : ℕ} (hw : wIfSignaled wstatus ∨ wstatus = exited 1) :
    exitCode wstatus ≠ 0 := by
  rcases hw with hw | rfl
  · have hlow : wstatus % 128 ≠ 0 ∧ wstatus % 128 ≠ 127 := of_decide_eq_true hw
    have hexited : ¬wIfExited wstatus = true := by
      rw [wIfExited, decide_eq_true_eq]
      exact hlow.1
    rw [exitCode, if_neg hexited]
    intro hzero
    apply hlow.1
    rw [Int.natCast_eq_zero.mp hzero]
  · decide

/-- Without a crash, only the counter matters. -/
theorem returned_ret {status ret : Int}
    (h : Reachable Check.exec (suite.map BluetestEntry.checks) capacity s)
    (hphase : s.phase = .returned status) (hret : s.parent.ret? = some ret) :
    ret = 0 ∧ 2 ^ 32 ∣ failedDyn (checks true (reported capacity suite)) ∨
      ret = 1 ∧ ¬2 ^ 32 ∣ failedDyn (checks true (reported capacity suite)) := by
  obtain ⟨code, data, hdone, rfl⟩ := ret?_eq_some hret
  obtain ⟨wstatus, hw, rfl⟩ := finished_code h hdone
  -- `main` returns what `run_test` returned, which is 0 in any case
  have hstatus : status = 0 := by
    obtain ⟨ph, c, sent, p⟩ := s
    subst hphase
    exact h.phaseInv.1
  rw [hphase, hstatus] at hw
  obtain rfl : exited 0 = wstatus := Option.some.inj hw
  rw [← dynFail_finished h hphase hdone, show exitCode (exited 0) = 0 from rfl]
  by_cases hzero : data.dynFail = 0
  · apply Or.inl
    rw [hzero]
    exact ⟨rfl, rfl⟩
  · apply Or.inr
    rw [if_pos ⟨rfl, UInt32.pos_iff_ne_zero.mpr hzero⟩]
    exact ⟨rfl, hzero⟩

/-- **The verdict over all runs**: zero is returned exactly when the process was not killed and the
number of failed dynamic checks in the entries that were reported is a multiple of `2^32`.  All runs
without a crash or a kill return the same. -/
theorem handleWait_returns_zero_iff {ret : Int}
    (h : Reachable Check.exec (suite.map BluetestEntry.checks) capacity s)
    (hret : s.parent.ret? = some ret) :
    (ret = 0 ↔ (∃ status, s.phase = .returned status) ∧
      2 ^ 32 ∣ failedDyn (checks true (reported capacity suite))) ∧
    ∀ status pipeFdArg, s.phase = .returned status → verdict capacity pipeFdArg suite = some ret := by
  constructor
  · obtain ⟨code, data, hdone, hcode⟩ := ret?_eq_some hret
    obtain ⟨wstatus, hw, rfl⟩ := finished_code h hdone
    cases hphase : s.phase with
    | loop => rw [hphase] at hw; cases hw
    | call => rw [hphase] at hw; cases hw
    | returned status =>
      rcases returned_ret h hphase hret with ⟨hzero, hdvd⟩ | ⟨hone, hdvd⟩
      · exact iff_of_true hzero ⟨⟨status, rfl⟩, hdvd⟩
      · rw [hone]
        exact iff_of_false Int.one_ne_zero fun hzero => hdvd hzero.2
    | crashed w =>
      rw [hphase] at hw
      obtain rfl : w = wstatus := Option.some.inj hw
      have hstatus : wIfSignaled w ∨ w = exited 1 := by
        obtain ⟨ph, c, sent, p⟩ := s
        subst hphase
        exact h.phaseInv.1
      have hne := exitCode_ne_zero hstatus
      rw [if_neg (fun hz => hne hz.1)] at hcode
      refine iff_of_false (by rwa [hcode]) ?_
      rintro ⟨⟨status, hstatus⟩, -⟩
      cases hstatus
  · intro status pipeFdArg hphase
    -- one run has the verdict of the sequential model, and all have the same
    obtain ⟨s', code, data, hreach, hphase', hdone, hverdict⟩ :=
      exists_verdict suite capacity pipeFdArg
    have hret' : s'.parent.ret? = verdict capacity pipeFdArg suite := by
      rw [hverdict, hdone]
      rfl
    rw [hverdict] at hret' ⊢
    rcases returned_ret h hphase hret with ⟨hzero, hdvd⟩ | ⟨hone, hdvd⟩
    · rcases returned_ret hreach hphase' hret' with ⟨hzero', -⟩ | ⟨-, hdvd'⟩
      · rw [hzero, hzero']
      · exact absurd hdvd hdvd'
    · rcases returned_ret hreach hphase' hret' with ⟨-, hdvd'⟩ | ⟨hone', -⟩
      · exact absurd hdvd' hdvd
      · rw [hone, hone']

/-- A dynamic check that fails. -/
theorem handleWait_returns_zero_iff_dyn :
    ∃ s ret, Reachable Check.exec ([⟨[], [.assertDyn false]⟩].map BluetestEntry.checks) 65536 s ∧
      s.parent.ret? = some ret ∧ (ret = 0 ↔ (∃ status, s.phase = .returned status) ∧
        2 ^ 32 ∣ failedDyn (checks true (reported 65536 [⟨[], [.assertDyn false]⟩]))) := by
  obtain ⟨s, code, data, hreach, hphase, hdone⟩ :=
    exists_finished Check.exec ([⟨[], [.assertDyn false]⟩].map BluetestEntry.checks) 65536
  have hret : s.parent.ret? = some (if code = 0 ∧ data.dynFail > 0 then 1 else code) := by
    rw [hdone]
    rfl
  exact ⟨s, _, hreach, hret, (handleWait_returns_zero_iff hreach hret).1⟩

end Bluetea.BlueTest
