import Mathlib.Data.Nat.Notation

/-!
# BlueTest: checks and test entries

`bluetest/bluetest.h`.  A test entry is called twice: in the dry run its predictable checks are
counted, in the real run all its checks are evaluated.  What a check evaluates to is data here, and
what it prints is left out.
-/

namespace Bluetea.BlueTest

/-- The counters, which a report carries to the parent. -/
structure BluetestData where
  nTest : UInt32
  nPass : UInt32
  dynFail : UInt32
  dynPass : UInt32
  deriving DecidableEq, Repr

def BluetestData.zero : BluetestData := ⟨0, 0, 0, 0⟩

/-- A call of a test entry in progress: its local `____ret`, and the counters it was given. -/
structure Frame where
  ret : Int
  data : BluetestData

/-- Prints the outcome and returns it. -/
def printTest (isSuccess : Bool) : Bool := isSuccess

/-- Prints failures only. -/
def printTestS (isSuccess : Bool) : Bool := isSuccess

/-- A predictable check: counted in the dry run, evaluated in the real run. -/
def staticCheck (print : Bool → Bool) (willRunTest expr : Bool) (f : Frame) : Frame :=
  if willRunTest then
    -- a failure is noted in `____ret` only
    if print expr then { f with data.nPass := f.data.nPass + 1 } else { f with ret := 1 }
  else { f with data.nTest := f.data.nTest + 1 }

/-- A dynamic check: evaluated in the real run only, and counted there. -/
def dynamicCheck (print : Bool → Bool) (willRunTest expr : Bool) (f : Frame) : Frame :=
  if willRunTest then
    if !print expr then { f with ret := 1, data.dynFail := f.data.dynFail + 1 }
    else { f with data.dynPass := f.data.dynPass + 1 }
  else f

def tqAssert : Bool → Bool → Frame → Frame := staticCheck printTest

def tqAssertS : Bool → Bool → Frame → Frame := staticCheck printTestS

def tqAssertDyn : Bool → Bool → Frame → Frame := dynamicCheck printTest

def tqAssertDynS : Bool → Bool → Frame → Frame := dynamicCheck printTestS

/-- A check in the text of an entry, with what its expression evaluates to. -/
inductive Check
  | assert (expr : Bool)
  | assertS (expr : Bool)
  | assertDyn (expr : Bool)
  | assertDynS (expr : Bool)
  deriving DecidableEq, Repr

def Check.exec (willRunTest : Bool) (f : Frame) : Check → Frame
  | assert expr => tqAssert willRunTest expr f
  | assertS expr => tqAssertS willRunTest expr f
  | assertDyn expr => tqAssertDyn willRunTest expr f
  | assertDynS expr => tqAssertDynS willRunTest expr f

/-- A test entry: the checks it comes to in the dry run and those it comes to in the real run.
The two may differ, since an entry can ask `will_run_test` itself. -/
structure BluetestEntry where
  dry : List Check
  real : List Check

def BluetestEntry.checks (e : BluetestEntry) (willRunTest : Bool) : List Check :=
  if willRunTest then e.real else e.dry

/-- A call of an entry: it starts with `TQ_START` and ends with `TQ_RETURN`. -/
def BluetestEntry.call (e : BluetestEntry) (willRunTest : Bool) (data : BluetestData) :
    Int × BluetestData :=
  let f := (e.checks willRunTest).foldl (Check.exec willRunTest) ⟨0, data⟩
  (f.ret, f.data)

end Bluetea.BlueTest
