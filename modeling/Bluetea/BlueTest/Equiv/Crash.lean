import Bluetea.BlueTest.Equiv.Runs

/-!
# What a crash reports

The handler reports the snapshot of the counters, which is the tally of the entries completed
before the call that the signal struck in.  The tallies are exact as far as 32 bits go.
-/

namespace Bluetea.BlueTest

variable {suite : List BluetestEntry} {capacity : ℕ}

/-- `d` has the totals over the entries `front`, which the run has completed. -/
structure CrashTotals (run : Bool) (suite front : List BluetestEntry) (d : BluetestData) :
    Prop where
  nTest : d.nTest.toNat
    = (checks false (if run then suite else front)).countP Check.isStatic % 2 ^ 32
  nPass : d.nPass.toNat = (if run then passedStatic (checks true front) else 0) % 2 ^ 32
  dynFail : d.dynFail.toNat = (if run then failedDyn (checks true front) else 0) % 2 ^ 32
  dynPass : d.dynPass.toNat = (if run then passedDyn (checks true front) else 0) % 2 ^ 32

/-- The predictable checks of the real run are among those counted in the dry run. -/
def BluetestEntry.Foreseen (e : BluetestEntry) : Prop :=
  e.real.countP Check.isStatic ≤ e.dry.countP Check.isStatic

theorem tally_checks (run : Bool) (suite front : List BluetestEntry) :
    tally Check.exec (suite.map BluetestEntry.checks) run (front.map BluetestEntry.checks)
      = (if run then BluetestData.zero.add false (checks false suite) else .zero).add run
          (checks run front) := by
  cases run
  · exact after_checks false front .zero
  · rw [tally, after_checks, base, if_pos rfl, after_checks]
    rfl

theorem crashTotals_tally (run : Bool) (suite front : List BluetestEntry) :
    CrashTotals run suite front
      (tally Check.exec (suite.map BluetestEntry.checks) run
        (front.map BluetestEntry.checks)) := by
  rw [tally_checks]
  cases run <;> constructor <;>
    simp [BluetestData.add, BluetestData.zero]

/-! ### Passes and tests -/

theorem countP_checks_le (h : ∀ e ∈ suite, e.Foreseen) :
    (checks true suite).countP Check.isStatic ≤ (checks false suite).countP Check.isStatic := by
  induction suite with
  | nil => exact Nat.le_refl _
  | cons e suite ih =>
    have he : (e.checks true).countP Check.isStatic ≤ (e.checks false).countP Check.isStatic :=
      h e (List.mem_cons_self ..)
    rw [checks, checks, List.flatMap_cons, List.flatMap_cons, List.countP_append,
      List.countP_append]
    exact Nat.add_le_add he (ih fun e' he' => h e' (List.mem_cons_of_mem _ he'))

theorem countP_checks_take_le (run : Bool) (suite : List BluetestEntry) (n : ℕ) :
    (checks run (suite.take n)).countP Check.isStatic
      ≤ (checks run suite).countP Check.isStatic := by
  conv_rhs => rw [← List.take_append_drop n suite]
  rw [checks, checks, List.flatMap_append, List.countP_append]
  exact Nat.le_add_right ..

/-- The passes of the first entries are no more than the checks counted over all entries. -/
theorem passedStatic_take_le (h : ∀ e ∈ suite, e.Foreseen) (n : ℕ) :
    passedStatic (checks true (suite.take n)) ≤ (checks false suite).countP Check.isStatic := by
  have hsplit := passedStatic_add_failedStatic (checks true (suite.take n))
  calc passedStatic (checks true (suite.take n))
      ≤ (checks true (suite.take n)).countP Check.isStatic := by omega
    _ ≤ (checks false (suite.take n)).countP Check.isStatic :=
        countP_checks_le fun e he => h e (List.mem_of_mem_take he)
    _ ≤ (checks false suite).countP Check.isStatic := countP_checks_take_le false suite n

theorem nPass_le_nTest_tally (h : ∀ e ∈ suite, e.Foreseen)
    (hlt : (checks false suite).countP Check.isStatic < 2 ^ 32) (run : Bool) (n : ℕ) :
    (tally Check.exec (suite.map BluetestEntry.checks) run
        ((suite.map BluetestEntry.checks).take n)).nPass
      ≤ (tally Check.exec (suite.map BluetestEntry.checks) run
          ((suite.map BluetestEntry.checks).take n)).nTest := by
  rw [← List.map_take, UInt32.le_iff_toNat_le]
  have htotals := crashTotals_tally run suite (suite.take n)
  rw [htotals.nPass, htotals.nTest]
  cases run
  · exact Nat.zero_le _
  · rw [if_pos rfl, if_pos rfl, Nat.mod_eq_of_lt hlt]
    exact Nat.le_trans (Nat.mod_le ..) (passedStatic_take_le h n)

/-- Wherever a signal strikes inside an entry, the handler reports the totals over the entries
completed before, modulo `2^32`.  As long as the count of the dry run does not wrap, no report has
more passes than tests. -/
theorem sigHandler_totals (suite : List BluetestEntry) (capacity : ℕ) :
    (∀ run front e rest done todo, suite = front ++ e :: rest → e.checks run = done ++ todo →
      ∃ s f, Reachable Check.exec (suite.map BluetestEntry.checks) capacity s ∧
        s.phase = .call run (rest.map BluetestEntry.checks) todo f) ∧
    (∀ s run entry todo f, Reachable Check.exec (suite.map BluetestEntry.checks) capacity s →
      s.phase = .call run entry todo f →
      ∃ front e rest done, suite = front ++ e :: rest ∧ entry = rest.map BluetestEntry.checks ∧
        e.checks run = done ++ todo ∧ CrashTotals run suite front (sigHandler s.child).1) ∧
    ((∀ e ∈ suite, e.Foreseen) → (checks false suite).countP Check.isStatic < 2 ^ 32 →
      ∀ s, Reachable Check.exec (suite.map BluetestEntry.checks) capacity s →
        ∀ d ∈ s.sent, d.nPass ≤ d.nTest) := by
  refine ⟨?_, ?_, ?_⟩
  · intro run front e rest done todo hsuite he
    have hmap : suite.map BluetestEntry.checks = front.map BluetestEntry.checks
        ++ e.checks :: rest.map BluetestEntry.checks := by
      rw [hsuite, List.map_append, List.map_cons]
    exact exists_call Check.exec _ run hmap he
  · intro s run entry todo f hreach hph
    obtain ⟨ph, c, sent, p⟩ := s
    subst hph
    -- inside a call `g_data` still holds the totals of the entries before it
    obtain ⟨front', e', done, hsuite, he, -, hdata, -⟩ := hreach.phaseInv
    obtain ⟨front, suffix, hsplit, hfront, hsuffix⟩ := List.map_eq_append_iff.mp hsuite
    obtain ⟨e, rest, rfl, rfl, rfl⟩ := List.map_eq_cons_iff.mp hsuffix
    subst hfront
    refine ⟨front, e, rest, done, hsplit, rfl, he, ?_⟩
    have hgData : (sigHandler c).1 = _ := hdata
    rw [hgData]
    exact crashTotals_tally run suite front
  · intro hforeseen hlt s hreach d hd
    obtain ⟨run, n, rfl⟩ := hreach.mem_sent hd
    exact nPass_le_nTest_tally hforeseen hlt run n

/-! ### Counters that wrap -/

/-- An entry with one check, and one with `n`; all pass. -/
def onePlus (n : ℕ) : List BluetestEntry :=
  [⟨[.assert true], [.assert true]⟩,
    ⟨List.replicate n (.assert true), List.replicate n (.assert true)⟩]

theorem foreseen_onePlus (n : ℕ) : ∀ e ∈ onePlus n, e.Foreseen := by
  intro e he
  rcases List.mem_cons.mp he with rfl | he
  · exact Nat.le_refl _
  · rw [List.mem_singleton.mp he]
    exact Nat.le_refl _

theorem countP_checks_onePlus (n : ℕ) :
    (checks false (onePlus n)).countP Check.isStatic = n + 1 := by
  have hchecks : checks false (onePlus n)
      = Check.assert true :: (List.replicate n (.assert true) ++ []) := rfl
  rw [hchecks, List.append_nil, List.countP_cons, List.countP_replicate]
  rfl

/-- The second entry of the real run is reached with one pass, which has been reported. -/
theorem exists_call_onePlus (n capacity : ℕ) :
    ∃ s entry todo f,
      Reachable Check.exec ((onePlus n).map BluetestEntry.checks) capacity s ∧
      s.phase = .call true entry todo f ∧
      (sigHandler s.child).1.nTest = .ofNat (n + 1) ∧ (sigHandler s.child).1.nPass = 1 ∧
      (sigHandler s.child).1 ∈ s.sent := by
  let first : BluetestEntry := ⟨[.assert true], [.assert true]⟩
  let second : BluetestEntry := ⟨List.replicate n (.assert true), List.replicate n (.assert true)⟩
  have hmap : (onePlus n).map BluetestEntry.checks = [first.checks] ++ [second.checks] := rfl
  -- the real run with the first entry done, and the second about to be called
  obtain ⟨c, hloop⟩ := exists_loop Check.exec _ true hmap
  have htally := tally_checks true (onePlus n) [first]
  refine ⟨_, _, _, _, hloop.tail .enter, rfl, ?_, ?_, ?_⟩
  · refine (congrArg BluetestData.nTest htally).trans ?_
    show (0 : UInt32) + .ofNat ((checks false (onePlus n)).countP Check.isStatic) = _
    rw [countP_checks_onePlus, UInt32.zero_add]
  · exact congrArg BluetestData.nPass htally
  · show _ ∈ reportsTo Check.exec _ true ([] ++ [first.checks])
    rw [reportsTo_concat]
    exact List.mem_append_right _ (List.mem_singleton.mpr rfl)

/-- In a suite of `2^32` checks, a crash in the second entry is reported with one pass of no test
at all. -/
theorem onePlus_wraps :
    (∀ e ∈ onePlus (2 ^ 32 - 1), e.Foreseen) ∧
      (checks false (onePlus (2 ^ 32 - 1))).countP Check.isStatic = 2 ^ 32 ∧
      ∃ s entry todo f,
        Reachable Check.exec ((onePlus (2 ^ 32 - 1)).map BluetestEntry.checks) 65536 s ∧
        s.phase = .call true entry todo f ∧ (sigHandler s.child).1.nTest = 0 ∧
        ∃ d ∈ s.sent, ¬d.nPass ≤ d.nTest := by
  refine ⟨foreseen_onePlus _, countP_checks_onePlus _, ?_⟩
  obtain ⟨s, entry, todo, f, hreach, hph, htest, hpass, hmem⟩ :=
    exists_call_onePlus (2 ^ 32 - 1) 65536
  have hzero : UInt32.ofNat (2 ^ 32 - 1 + 1) = 0 := by decide
  rw [hzero] at htest
  refine ⟨s, entry, todo, f, hreach, hph, htest, _, hmem, ?_⟩
  rw [htest, hpass]
  decide

end Bluetea.BlueTest
