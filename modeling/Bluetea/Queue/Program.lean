import Bluetea.Machine.Run
import Bluetea.Queue.Basic

/-!
# Programs that use a queue

A `World` is the memory, one queue and the nodes the caller holds, that is, took out and has not
deleted.  `queueMachine` issues the operations one by one; `Pre` says what a correct caller owes.

* The data passed to enqueue is a C object, hence shorter than `PTRDIFF_MAX + 1` bytes, and has
  at least `len` bytes; `malloc` behaves.
* Only a member of the queue is detached: a node the loop over `next` visits.
* Only a node the caller holds is deleted.
-/

namespace Bluetea.Queue

open DoublyLinked

/-- The bytes of a C object. -/
structure CObj where
  bytes : List UInt8
  length_lt : bytes.length < 2 ^ 63

structure World where
  mem : Mem
  q : BtQueue
  /-- The nodes taken out and not deleted. -/
  held : List Addr

/-- `bt_queue_init(q, max_el)` in a memory whose list of accesses is cleared. -/
def World.init (m : Mem) (q : BtQueue) (maxEl : UInt32) : World :=
  ⟨{ m with trace := [] }, btQueueInit q maxEl, []⟩

/-- The calls a program makes; `ans` is what `malloc` would return. -/
inductive QueueOp
  | enqueue (ans : Option UInt64) (data : CObj) (len : UInt64)
  | dequeue
  | detach (n : Addr)
  | delete (n : Addr)

/-- What the caller sees of an operation: the returned pointer, `errno`, and through
`bt_qnode_len` and `bt_qnode_data` the payload of the returned node. -/
structure Res where
  ret : Option Addr
  errno : Int
  payload : Option (UInt64 × List UInt8)
  deriving DecidableEq, Repr

def observe (ret : Option Addr) (m : Mem) : Res :=
  ⟨ret, m.errno, ret.map fun a =>
    (btQnodeLen (m.node a), (btQnodeData (m.node a)).take (btQnodeLen (m.node a)).toNat)⟩

/-- `n` is in the queue: following `next` from the head visits it. -/
def World.Member (w : World) (n : Addr) : Prop :=
  ∃ l, Walk (fun a => (w.mem.node a).next) w.q.head l ∧ n ∈ l

/-- One call. -/
def exec (b : Build) (fuel : ℕ) (w : World) : QueueOp → Except Fault (Res × World)
  | .enqueue ans data len => do
    let ((r, q), m) ← outcome (btQueueEnqueue b ans w.q data.bytes len) w.mem
    return (observe r m, { w with mem := m, q := q })
  | .dequeue => do
    let ((r, q), m) ← outcome (btQueueDequeue b w.q) w.mem
    return (observe r m, { w with mem := m, q := q, held := r.toList ++ w.held })
  | .detach n => do
    let ((r, q), m) ← outcome (btQnodeDetach b fuel w.q (some n)) w.mem
    return (observe r m, { w with mem := m, q := q, held := r.toList ++ w.held })
  | .delete n => do
    let ((), m) ← outcome (btQnodeDelete (some n)) w.mem
    return (observe none m, { w with mem := m, held := w.held.erase n })

/-- The caller's obligations. -/
def Owed (w : World) : QueueOp → Prop
  | .enqueue ans data len => len.toNat ≤ data.bytes.length ∧
      ∀ orig, ans = some orig → w.mem.MallocOk (nodeSize len) orig
  | .dequeue => True
  | .detach n => w.Member n
  | .delete n => n ∈ w.held

/-- The queue as seen by a program. -/
def queueMachine (b : Build) (fuel : ℕ) : Machine World QueueOp Res Fault where
  step := exec b fuel
  Pre := Owed

end Bluetea.Queue
