import Bluetea.Que.Basic
import Bluetea.Queue.Program

/-!
# Programs that use the queue of the old library

A `World` is the memory, one queue and the nodes the caller holds, as in `Bluetea.Queue.Program`.  A
correct caller passes as many bytes of data as it says, and destroys only nodes that it has taken out
and not destroyed yet.
-/

namespace Bluetea.Que

open Queue (CObj)

structure World where
  mem : Mem
  que : QueMaster
  /-- The nodes taken out and not destroyed. -/
  held : List Addr

/-- `que_init(que, capacity)`, with the records of what was allocated and freed cleared. -/
def World.init (m : Mem) (que : QueMaster) (capacity : UInt32) : World :=
  ⟨{ m with allocated := [], freed := [] }, queInit que capacity, []⟩

/-- The calls a program makes; `ans` is what `aligned_alloc` would return. -/
inductive QueOp
  | enqueue (ans : Option Addr) (data : CObj) (len : UInt64)
  | dequeue
  | nodeDestroy (n : Addr)

/-- What the caller sees of an operation: the returned pointer, `errno`, and the length and the
payload of the returned node, with the byte behind it. -/
structure Res where
  ret : Option Addr
  errno : Int
  payload : Option (UInt64 × List UInt8)
  deriving DecidableEq, Repr

def observe (ret : Option Addr) (m : Mem) : Res :=
  ⟨ret, m.errno, ret.map fun a => ((m.node a).len, (m.node a).data.take ((m.node a).len.toNat + 1))⟩

/-- One call. -/
def exec (ndebug : Bool) (w : World) : QueOp → Except Fault (Res × World)
  | .enqueue ans data len => do
    let ((r, que), m) ← (queEnqueue ndebug ans w.que data.bytes len).run w.mem
    return (observe r m, { w with mem := m, que := que })
  | .dequeue => do
    let ((r, que), m) ← (queDequeue ndebug w.que).run w.mem
    return (observe r m, { w with mem := m, que := que, held := r.toList ++ w.held })
  | .nodeDestroy n => do
    let ((), m) ← (queNodeDestroy (some n)).run w.mem
    return (observe none m, { w with mem := m, held := w.held.erase n })

/-- The caller's obligations, and those of `aligned_alloc`. -/
def Owed (w : World) : QueOp → Prop
  | .enqueue ans data len => len.toNat ≤ data.bytes.length ∧
      ∀ a, ans = some a → w.mem.AllocOk (nodeSize len) a
  | .dequeue => True
  | .nodeDestroy n => n ∈ w.held

/-- The queue as seen by a program. -/
def queMachine (ndebug : Bool) : Machine World QueOp Res Fault where
  step := exec ndebug
  Pre := Owed

/-- The node that the `prev` link of the head points to, as far as the calls tell: the one taken out
last, unless the queue has been empty since. -/
def nextOut (out : Option Addr) (w : World) : QueOp → Option Addr
  | .dequeue => if w.que.count ≤ 1 then none else w.que.head
  | _ => out

end Bluetea.Que
