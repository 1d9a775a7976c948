import Bluetea.BlueTest.Equiv.Runs

/-!
# The last report

The parent ends with the last report that was sent while there was room in the pipe.  There are two
for every entry and none is read before the process has ended, so that is the last one of all if
the suite is small, or if nothing has changed since.  For entries made of checks, nothing has changed if
the checks behind the cut have not been counted, up to the width of the counters
(`getLastD_take_reportsTo_checks_iff`).
-/

namespace Bluetea.BlueTest

variable {κ : Type*} {move : Bool → Frame → κ → Frame} {suite : List (Bool → List κ)}
variable {capacity : ℕ} {s : State κ} {code : Int} {data : BluetestData}

/-- The counters `handle_wait` ends with, however the process has ended. -/
theorem finished_data (h : Reachable move suite capacity s)
    (hdone : s.parent = .finished code data) :
    data = (s.sent.take (capacity / reportSize)).getLastD .zero := by
  obtain ⟨ph, c, sent, p⟩ := s
  subst hdone
  obtain ⟨wstatus, -, -, hdata⟩ := h.pipeInv.parent
  exact hdata

theorem returned_sent {status : Int} (h : Reachable move suite capacity s)
    (hret : s.phase = .returned status) : s.sent = reportsTo move suite true suite := by
  obtain ⟨ph, c, sent, p⟩ := s
  subst hret
  exact h.phaseInv.2

/-- In every run to the end, `handle_wait` ends with the counters of the last report if and only
if all reports fit into the pipe, or the last one that fits has the same counters. -/
theorem handleWait_lastReport_iff (move : Bool → Frame → κ → Frame) (suite : List (Bool → List κ))
    (capacity : ℕ) :
    (∃ s code data, Reachable move suite capacity s ∧ s.phase = .returned 0 ∧
      s.parent = .finished code data) ∧
    ∀ s status code data, Reachable move suite capacity s → s.phase = .returned status →
      s.parent = .finished code data →
      s.sent = reportsTo move suite true suite ∧
      (data = s.sent.getLastD .zero ↔
        2 * suite.length ≤ capacity / reportSize ∨
        ((reportsTo move suite true suite).take (capacity / reportSize)).getLastD .zero
          = (reportsTo move suite true suite).getLastD .zero) := by
  refine ⟨exists_finished move suite capacity, ?_⟩
  intro s status code data hreach hret hdone
  have hsent := returned_sent hreach hret
  refine ⟨hsent, ?_⟩
  rw [finished_data hreach hdone, hsent]
  constructor
  · exact Or.inr
  · rintro (hroom | hsame)
    · rw [← length_reportsTo_true move suite] at hroom
      exact DropTail.getLastD_take_of_room hroom .zero
    · exact hsame

/-! ### Entries made of checks -/

theorem add_ofNat_eq_self_iff (x : UInt32) (n : ℕ) : x + .ofNat n = x ↔ 2 ^ 32 ∣ n := by
  rw [UInt32.add_eq_left, ← UInt32.toNat_inj, UInt32.toNat_ofNat', UInt32.toNat_zero,
    Nat.dvd_iff_mod_eq_zero]

/-- Checks that are not counted, or so often that the counters wrap to where they were. -/
theorem add_true_eq_self_iff (d : BluetestData) (cs : List Check) :
    d.add true cs = d ↔
      2 ^ 32 ∣ passedStatic cs ∧ 2 ^ 32 ∣ failedDyn cs ∧ 2 ^ 32 ∣ passedDyn cs := by
  obtain ⟨nTest, nPass, dynFail, dynPass⟩ := d
  rw [← add_ofNat_eq_self_iff nPass, ← add_ofNat_eq_self_iff dynFail,
    ← add_ofNat_eq_self_iff dynPass, BluetestData.add, if_pos rfl, BluetestData.mk.injEq]
  exact and_iff_right rfl

/-- When there is room for the dry run, the last report that fits has the counters of the last one of
all if and only if the checks behind the cut are not counted. -/
theorem getLastD_take_reportsTo_checks_iff {suite : List BluetestEntry} {n : ℕ}
    (h : suite.length ≤ n) :
    (let sent := reportsTo Check.exec (suite.map BluetestEntry.checks) true
      (suite.map BluetestEntry.checks)
    (sent.take n).getLastD .zero = sent.getLastD .zero) ↔
      let cs := checks true (suite.drop (n - suite.length))
      2 ^ 32 ∣ passedStatic cs ∧ 2 ^ 32 ∣ failedDyn cs ∧ 2 ^ 32 ∣ passedDyn cs := by
  dsimp only
  have hcut : checks true suite = checks true (suite.take (n - suite.length))
      ++ checks true (suite.drop (n - suite.length)) := by
    rw [checks, checks, checks, ← List.flatMap_append, List.take_append_drop]
  rw [getLastD_take_reportsTo (by rwa [List.length_map]), getLastD_reportsTo, List.length_map,
    ← List.map_take, tally, tally, after_checks, after_checks, hcut, BluetestData.add_append]
  exact Iff.trans ⟨Eq.symm, Eq.symm⟩ (add_true_eq_self_iff _ _)

/-- Entries with one check each, which passes. -/
def passing (n : ℕ) : List BluetestEntry := List.replicate n ⟨[.assert true], [.assert true]⟩

/-- One entry more than there is room for, in a pipe of 65536 bytes: two passes are missing. -/
theorem passing_loses_reports :
    ∃ s code data, Reachable Check.exec ((passing 2049).map BluetestEntry.checks) 65536 s ∧
      s.phase = .returned 0 ∧ s.parent = .finished code data ∧ data ≠ s.sent.getLastD .zero := by
  obtain ⟨s, code, data, hreach, hret, hdone⟩ :=
    exists_finished Check.exec ((passing 2049).map BluetestEntry.checks) 65536
  refine ⟨s, code, data, hreach, hret, hdone, ?_⟩
  have hlen : (passing 2049).length = 2049 := List.length_replicate
  -- behind the cut there are two entries
  have hcut : (passing 2049).drop (65536 / reportSize - (passing 2049).length) = passing 2 := by
    rw [hlen]
    exact List.drop_replicate
  have hroom : (passing 2049).length ≤ 65536 / reportSize := by
    rw [hlen]
    decide
  rw [finished_data hreach hdone, returned_sent hreach hret]
  intro heq
  obtain ⟨hpassed, -, -⟩ := (getLastD_take_reportsTo_checks_iff hroom).mp heq
  rw [hcut] at hpassed
  exact absurd hpassed (by decide)

end Bluetea.BlueTest
