import Mathlib.Logic.Function.Basic
import Bluetea.Machine.Run

/-!
# Locks and conditions

`lib/mutex.h`, compiled with `TEST_LEAK`: `init` and `destroy` of a lock and of a condition.  What
`malloc` and the pthread functions answer is an input of each call.

A block that `malloc` returns is known by its number, which no later block gets.  What has been
freed and which pthread functions have been called is kept as a record.
-/

namespace Bluetea.Mutex

/-- The lock, or the condition. -/
inductive Obj
  | lock
  | cond
  deriving DecidableEq, Repr

/-- `struct bt_mutex`, and `struct bt_cond`, without the pthread object. -/
structure BtObj where
  init : Bool
  testLeak : Option ℕ
  deriving DecidableEq, Repr

/-- A call of `pthread_mutex_init` or `pthread_cond_init`, or of the `destroy` function of either,
with what it returned. -/
inductive PthreadCall
  | init (o : Obj) (ret : Int)
  | destroy (o : Obj) (ret : Int)
  deriving DecidableEq, Repr

def PthreadCall.obj : PthreadCall → Obj
  | init o _ => o
  | destroy o _ => o

/-- The two objects, the number of the next block, and the record. -/
structure Sys where
  objs : Obj → BtObj
  next : ℕ
  freed : List ℕ
  calls : List PthreadCall

/-- Nothing has been called yet: the objects hold whatever was in their memory. -/
def Sys.start (objs : Obj → BtObj) : Sys := ⟨objs, 0, [], []⟩

def Sys.setObj (s : Sys) (o : Obj) (x : BtObj) : Sys :=
  { s with objs := Function.update s.objs o x }

/-! ### The functions from outside -/

/-- `malloc(1)` -/
def malloc (ok : Bool) : StateM Sys (Option ℕ) := do
  if ok then
    let s ← get
    set { s with next := s.next + 1 }
    return some s.next
  else return none

def free (p : Option ℕ) : StateM Sys Unit :=
  match p with
  | none => pure ()
  | some p => modify fun s => { s with freed := s.freed ++ [p] }

/-- `pthread_mutex_init`, `pthread_cond_init` -/
def pthreadInit (o : Obj) (ret : Int) : StateM Sys Int := do
  modify fun s => { s with calls := s.calls ++ [.init o ret] }
  return ret

/-- `pthread_mutex_destroy`, `pthread_cond_destroy` -/
def pthreadDestroy (o : Obj) (ret : Int) : StateM Sys Int := do
  modify fun s => { s with calls := s.calls ++ [.destroy o ret] }
  return ret

/-! ### `lib/mutex.h` -/

def setTestLeak (o : Obj) (p : Option ℕ) : StateM Sys Unit :=
  modify fun s => s.setObj o { s.objs o with testLeak := p }

def setInit (o : Obj) (init : Bool) : StateM Sys Unit :=
  modify fun s => s.setObj o { s.objs o with init := init }

def btMutexInit (mallocOk : Bool) (ret : Int) : StateM Sys Int := do
  -- `memset(lock, 0, sizeof(*lock))`
  modify fun s => s.setObj .lock ⟨false, none⟩
  setTestLeak .lock (← malloc mallocOk)
  setInit .lock true
  pthreadInit .lock ret

def btMutexDestroy (ret : Int) : StateM Sys Int := do
  let lock := (← get).objs .lock
  if !lock.init then
    return 0
  free lock.testLeak
  setInit .lock false
  pthreadDestroy .lock ret

def btCondInit (mallocOk : Bool) (ret : Int) : StateM Sys Int := do
  setTestLeak .cond (← malloc mallocOk)
  setInit .cond true
  pthreadInit .cond ret

def btCondDestroy (ret : Int) : StateM Sys Int := do
  let cond := (← get).objs .cond
  let mut r := 0
  if cond.init then
    r ← pthreadDestroy .cond ret
    setInit .cond false
  free cond.testLeak
  return r

/-! ### Their caller -/

/-- A call, with what the functions from outside answer in it. -/
inductive Action
  | init (o : Obj) (mallocOk : Bool) (ret : Int)
  | destroy (o : Obj) (ret : Int)
  deriving DecidableEq, Repr

def exec (s : Sys) : Action → Int × Sys
  | .init .lock mallocOk ret => (btMutexInit mallocOk ret).run s
  | .init .cond mallocOk ret => (btCondInit mallocOk ret).run s
  | .destroy .lock ret => (btMutexDestroy ret).run s
  | .destroy .cond ret => (btCondDestroy ret).run s

/-- The calls, which never fault: what goes wrong is found in the record. -/
def machine : Machine Sys Action Int Empty where
  step s a := .ok (exec s a)
  Pre _ _ := True

/-- What the caller has done with an object; after `init`, what it returned. -/
inductive Phase
  | never
  | inited (ret : Int)
  | destroyed
  deriving DecidableEq, Repr

def Action.obj : Action → Obj
  | init o _ _ => o
  | destroy o _ => o

/-- The phase after the call, where `ret` is what it returns. -/
def Action.phase (ret : Int) : Action → Phase
  | init _ _ _ => .inited ret
  | destroy _ _ => .destroyed

def nextPhase (ph : Obj → Phase) (s : Sys) (a : Action) : Obj → Phase :=
  Function.update ph a.obj (a.phase (exec s a).1)

/-- `init` comes first, and again only after a `destroy`. -/
def MayCall (x : Sys × (Obj → Phase)) : Action → Prop
  | .init o _ _ => ∀ ret, x.2 o ≠ .inited ret
  | .destroy o _ => x.2 o ≠ .never

/-- The functions under a caller that keeps to that order. -/
def lifecycle : Machine (Sys × (Obj → Phase)) Action Int Empty :=
  (machine.withHistory nextPhase).restrict MayCall

/-! ### What is asked of a run -/

/-- The last pthread call on the object. -/
def lastCall (o : Obj) (calls : List PthreadCall) : Option PthreadCall :=
  (calls.filter fun c => c.obj = o).getLast?

/-- It was an `init` that succeeded. -/
def Usable (o : Obj) (calls : List PthreadCall) : Prop := lastCall o calls = some (.init o 0)

instance (o : Obj) (calls : List PthreadCall) : Decidable (Usable o calls) :=
  inferInstanceAs (Decidable (_ = _))

/-- Every block is freed at most once, and only usable pthread objects are destroyed. -/
structure Sys.Safe (s : Sys) : Prop where
  freed : s.freed.Nodup
  destroyed : ∀ pre o ret post, s.calls = pre ++ .destroy o ret :: post → Usable o pre

end Bluetea.Mutex
