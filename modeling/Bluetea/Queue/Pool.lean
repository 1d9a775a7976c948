import Bluetea.Queue.Program

/-!
# Programs that use several queues

A `Pool` is the memory, a family of queues and the nodes the caller holds.  Every queue of the
family has been initialised; `init` initialises one again.  The caller owes what it owes for one
queue, except that the validating build itself checks what is detached.
-/

namespace Bluetea.Queue

open DoublyLinked

structure Pool where
  mem : Mem
  queues : ℕ → BtQueue
  /-- The nodes taken out and not deleted. -/
  held : List Addr

/-- `bt_queue_init(&q[i], max_el[i])` for all queues. -/
def Pool.init (m : Mem) (q : ℕ → BtQueue) (maxEl : ℕ → UInt32) : Pool :=
  ⟨m, fun i => btQueueInit (q i) (maxEl i), []⟩

/-- The calls of a program, on the queue with number `i`. -/
inductive PoolOp
  | init (i : ℕ) (maxEl : UInt32)
  | enqueue (i : ℕ) (ans : Option UInt64) (data : CObj) (len : UInt64)
  | dequeue (i : ℕ)
  | detach (i : ℕ) (n : Addr)
  | delete (n : Addr)

/-- The pool after a call on queue `i` that left `m` and `q`. -/
def Pool.set (w : Pool) (i : ℕ) (m : Mem) (q : BtQueue) : Pool :=
  { w with mem := m, queues := Function.update w.queues i q }

/-- `n` is in queue `i`: following `next` from its head visits it. -/
def Pool.Member (w : Pool) (i : ℕ) (n : Addr) : Prop :=
  ∃ l, Walk (fun a => (w.mem.node a).next) (w.queues i).head l ∧ n ∈ l

/-- One call, and the pointer it returns. -/
def Pool.exec (b : Build) (fuel : ℕ) (w : Pool) : PoolOp → Except Fault (Option Addr × Pool)
  | .init i maxEl => return (none, w.set i w.mem (btQueueInit (w.queues i) maxEl))
  | .enqueue i ans data len => do
    let ((r, q), m) ← outcome (btQueueEnqueue b ans (w.queues i) data.bytes len) w.mem
    return (r, w.set i m q)
  | .dequeue i => do
    let ((r, q), m) ← outcome (btQueueDequeue b (w.queues i)) w.mem
    return (r, { w.set i m q with held := r.toList ++ w.held })
  | .detach i n => do
    let ((r, q), m) ← outcome (btQnodeDetach b fuel (w.queues i) (some n)) w.mem
    return (r, { w.set i m q with held := r.toList ++ w.held })
  | .delete n => do
    let ((), m) ← outcome (btQnodeDelete (some n)) w.mem
    return (none, { w with mem := m, held := w.held.erase n })

/-- The caller's obligations. -/
def Pool.Owed (b : Build) (w : Pool) : PoolOp → Prop
  | .init _ _ => True
  | .enqueue _ ans data len => len.toNat ≤ data.bytes.length ∧
      ∀ orig, ans = some orig → w.mem.MallocOk (nodeSize len) orig
  | .dequeue _ => True
  | .detach i n => b = .ndebug → w.Member i n
  | .delete n => n ∈ w.held

/-- The queues as seen by a program. -/
def poolMachine (b : Build) (fuel : ℕ) : Machine Pool PoolOp (Option Addr) Fault where
  step := Pool.exec b fuel
  Pre := Pool.Owed b

end Bluetea.Queue
