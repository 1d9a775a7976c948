import Mathlib.Data.Nat.Notation

/-!
# TeaTest: checks and test entries

`teatest/teatest.h`, the framework that BlueTest replaced.  A test entry is called twice: without
`is_exec` its checks are counted, with it they are evaluated.  An entry works on the counters of the
framework themselves.  What a check evaluates to is data here, and what it prints is left out.
-/

namespace Bluetea.TeaTest

/-- `point_t`, a report. -/
structure Point where
  totalPoint : UInt32
  point : UInt32
  deriving DecidableEq, Repr

/-- The static variables of the test process, but for the descriptor of the pipe. -/
structure Globals where
  isExec : Bool
  totalPoint : UInt32
  point : UInt32
  deriving DecidableEq, Repr

def Globals.data (g : Globals) : Point := ⟨g.totalPoint, g.point⟩

/-- A call of a test entry in progress: its local `____ret`, and the counters. -/
structure Frame where
  ret : Int
  globals : Globals

def tqAssertIsExec (g : Globals) : Bool := g.isExec

/-- Prints the outcome and returns it. -/
def printTest (isSuccess : Bool) : Bool := isSuccess

/-- Prints failures only. -/
def printTestS (isSuccess : Bool) : Bool := isSuccess

/-- A check, up to what it prints. -/
def check (print : Bool → Bool) (expr : Bool) (f : Frame) : Frame :=
  if tqAssertIsExec f.globals then
    if print expr then { f with globals.point := f.globals.point + 1 } else { f with ret := 1 }
  else { f with globals.totalPoint := f.globals.totalPoint + 1 }

def tqAssert : Bool → Frame → Frame := check printTest

def tqAssertS : Bool → Frame → Frame := check printTestS

/-- A check in the text of an entry, with what its expression evaluates to. -/
inductive Check
  | assert (expr : Bool)
  | assertS (expr : Bool)
  deriving DecidableEq, Repr

def Check.expr : Check → Bool
  | assert expr => expr
  | assertS expr => expr

def Check.exec (f : Frame) : Check → Frame
  | assert expr => tqAssert expr f
  | assertS expr => tqAssertS expr f

/-- A test entry: the checks it comes to without `is_exec` and those it comes to with it.  The two
may differ, since an entry can ask `tq_assert_is_exec` itself. -/
structure TestEntry where
  dry : List Check
  real : List Check
  deriving DecidableEq, Repr

def TestEntry.checks (e : TestEntry) (isExec : Bool) : List Check :=
  if isExec then e.real else e.dry

/-! ### What the checks do to the counters -/

/-- How many checks pass. -/
def passed (ks : List Check) : ℕ := ks.countP Check.expr

def allPass (ks : List Check) : Bool := ks.all Check.expr

/-- The counters behind `ks`. -/
def Globals.count (g : Globals) (ks : List Check) : Globals :=
  if g.isExec then { g with point := g.point + UInt32.ofNat (passed ks) }
  else { g with totalPoint := g.totalPoint + UInt32.ofNat ks.length }

/-- What `____ret` is behind `ks`. -/
def retAfter (isExec : Bool) (ks : List Check) (ret : Int) : Int :=
  if isExec && !allPass ks then 1 else ret

/-- The two checks differ in what they print only. -/
theorem exec_eq (f : Frame) (k : Check) : k.exec f = tqAssert k.expr f := by
  cases k <;> rfl

@[simp] theorem count_isExec (g : Globals) (ks : List Check) : (g.count ks).isExec = g.isExec := by
  rw [Globals.count]
  split <;> rfl

theorem allPass_append (ks ks' : List Check) :
    allPass (ks ++ ks') = (allPass ks && allPass ks') :=
  List.all_append

theorem allPass_singleton (k : Check) : allPass [k] = k.expr :=
  Bool.and_true k.expr

/-- Counting goes on where it was. -/
theorem count_append (g : Globals) (ks ks' : List Check) :
    g.count (ks ++ ks') = (g.count ks).count ks' := by
  obtain ⟨isExec, totalPoint, point⟩ := g
  cases isExec with
  | false =>
    show (⟨false, totalPoint + _, point⟩ : Globals) = ⟨false, totalPoint + _ + _, point⟩
    rw [List.length_append, UInt32.ofNat_add, UInt32.add_assoc]
  | true =>
    show (⟨true, totalPoint, point + _⟩ : Globals) = ⟨true, totalPoint, point + _ + _⟩
    rw [passed, List.countP_append, UInt32.ofNat_add, UInt32.add_assoc, passed, passed]

/-- What one check does to the counters. -/
theorem exec_globals (f : Frame) (k : Check) : (k.exec f).globals = f.globals.count [k] := by
  obtain ⟨ret, isExec, totalPoint, point⟩ := f
  rw [exec_eq]
  cases isExec with
  | false => rfl
  | true =>
    cases hk : k.expr with
    | false =>
      show (⟨true, totalPoint, point⟩ : Globals) = ⟨true, totalPoint, point + UInt32.ofNat _⟩
      rw [passed, List.countP_singleton, hk, if_neg Bool.false_ne_true, show UInt32.ofNat 0 = 0 from rfl,
        UInt32.add_zero]
    | true =>
      show (⟨true, totalPoint, point + 1⟩ : Globals) = ⟨true, totalPoint, point + UInt32.ofNat _⟩
      rw [passed, List.countP_singleton, hk, if_pos rfl, UInt32.ofNat_one]

/-- What one check does to `____ret`. -/
theorem exec_ret (f : Frame) (k : Check) :
    (k.exec f).ret = retAfter f.globals.isExec [k] f.ret := by
  obtain ⟨ret, isExec, totalPoint, point⟩ := f
  rw [exec_eq, retAfter, allPass_singleton]
  cases isExec with
  | false => rfl
  | true => cases hk : k.expr <;> rfl

theorem retAfter_append (isExec : Bool) (ks ks' : List Check) (ret : Int) :
    retAfter isExec (ks ++ ks') ret = retAfter isExec ks' (retAfter isExec ks ret) := by
  rw [retAfter, retAfter, retAfter, allPass_append]
  cases isExec <;> cases allPass ks <;> cases allPass ks' <;> rfl

/-- A call returns non-zero exactly when one of its checks fails. -/
theorem retAfter_ne_zero (isExec : Bool) (ks : List Check) :
    retAfter isExec ks 0 ≠ 0 ↔ (isExec && !allPass ks) = true := by
  rw [retAfter]
  cases isExec && !allPass ks <;> decide

end Bluetea.TeaTest
