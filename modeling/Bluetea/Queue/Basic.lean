import Bluetea.Queue.Node

/-!
# The queue

`lib/queue.c` and `lib/queue.h`: a doubly linked FIFO of at most `max_el` nodes.  A function that
takes a `bt_queue_t *` takes the structure and returns the changed one; the nodes are in the
memory.

The library is built with assertions (`Build.debug`) or, with `-DNDEBUG`, without them
(`Build.ndebug`); the second build also leaves out the search with which `bt_qnode_detach`
validates its argument.  Loops over links run on `fuel` and fault when it is used up.
-/

namespace Bluetea.Queue

/-- The two builds of the library. -/
inductive Build
  | debug
  | ndebug
  deriving DecidableEq, Repr

/-- `bt_queue_t`. -/
structure BtQueue where
  head : Option Addr
  tail : Option Addr
  count : UInt32
  maxEl : UInt32
  deriving DecidableEq, Repr

/-- `assert(c)`, which the `NDEBUG` build drops. -/
def btAssert (b : Build) (c : Prop) [Decidable c] (site : AbortSite) : CM Unit :=
  if b = .debug ∧ ¬c then fail (.abort site) else pure ()

def btQueueInit (_q : BtQueue) (maxEl : UInt32) : BtQueue := ⟨none, none, 0, maxEl⟩

def btQueueCount (q : BtQueue) : UInt32 := q.count

/-! ### Enqueue and dequeue -/

/-- Write the header and the payload of a new node. -/
def enqueueFill (node : Addr) (data : List UInt8) (len : UInt64) : CM Unit := do
  store (some node) ({ · with next := none })
  store (some node) ({ · with prev := none })
  store (some node) ({ · with len := len })
  memcpyData (some node) data len

/-- Link a new node behind the tail, or as the only one. -/
def enqueueLink (b : Build) (q : BtQueue) (node : Addr) : CM BtQueue := do
  if q.head = none then
    btAssert b (q.tail = none) .enqueueTail
    return { q with head := some node, tail := some node }
  else
    store (some node) ({ · with prev := q.tail })
    store q.tail ({ · with next := some node })
    return { q with tail := some node }

def btQueueEnqueue (b : Build) (ans : Option UInt64) (q : BtQueue) (data : List UInt8)
    (len : UInt64) : CM (Option Addr × BtQueue) := do
  if q.count ≥ q.maxEl then
    setErrno EAGAIN
    return (none, q)
  match ← btQnodeCreate ans len with
  | none =>
    setErrno ENOMEM
    return (none, q)
  | some node =>
    enqueueFill node data len
    let q ← enqueueLink b { q with count := q.count + 1 } node
    return (some node, q)

/-- The two assertions of `bt_queue_dequeue`.  The second one reads the node, so the release
build does not even read it. -/
def dequeueAsserts (b : Build) (q : BtQueue) : CM Unit := do
  btAssert b q.head.isSome .dequeueHead
  if b = .debug then
    let n ← load q.head
    btAssert b (n.prev = none) .dequeueHeadPrev

/-- Consume the queue from the head. -/
def dequeueHead (q : BtQueue) : CM (Option Addr × BtQueue) := do
  let ret := q.head
  let n ← load q.head
  let q := { q with head := n.next }
  if q.head.isSome then
    store q.head ({ · with prev := none })
  store ret ({ · with prev := none })
  store ret ({ · with next := none })
  return (ret, { q with count := q.count - 1 })

def btQueueDequeue (b : Build) (q : BtQueue) : CM (Option Addr × BtQueue) := do
  if q.count = 0 then
    setErrno EAGAIN
    return (none, q)
  dequeueAsserts b q
  dequeueHead q

/-! ### Detach -/

/-- `head = head->next` and `tail = tail->prev`, for pointers that are not null. -/
def advance (p : Option Addr) (f : BtQnode → Option Addr) : CM (Option Addr) := do
  if p.isSome then
    return f (← load p)
  return none

/-- The two-ended search of the validating build; the answer is whether it reached `out_good`. -/
def detachSearch (node : Option Addr) : ℕ → Option Addr → Option Addr → CM Bool
  | 0, _, _ => fail .fuel
  | fuel + 1, head, tail => do
    if head = none ∧ tail = none then
      return false
    if head = node ∨ tail = node then
      return true
    let head' ← advance head (·.next)
    let tail' ← advance tail (·.prev)
    detachSearch node fuel head' tail'

/-- From `out_good` on: take `node` out of the links that point to it. -/
def detachRelink (q : BtQueue) (node : Option Addr) : CM BtQueue := do
  if node = q.head ∧ node = q.tail then
    if q.count ≠ 1 then
      fail (.abort (.detachInvalid 3))
    return { q with head := none, tail := none }
  else if node = q.head then
    let n ← load q.head
    store n.next ({ · with prev := none })
    return { q with head := n.next }
  else if node = q.tail then
    let n ← load q.tail
    store n.prev ({ · with next := none })
    return { q with tail := n.prev }
  else
    let n ← load node
    store n.next ({ · with prev := n.prev })
    store n.prev ({ · with next := n.next })
    return q

/-- The strict validation of the debug build: it goes on only from `out_good`. -/
def detachValidate (b : Build) (fuel : ℕ) (q : BtQueue) (node : Option Addr) : CM Unit := do
  if b = .debug then
    if q.count = 0 then
      fail (.abort (.detachInvalid 1))
    let found ← detachSearch node fuel q.head q.tail
    if !found then
      fail (.abort (.detachInvalid 2))

def btQnodeDetach (b : Build) (fuel : ℕ) (q : BtQueue) (node : Option Addr) :
    CM (Option Addr × BtQueue) := do
  detachValidate b fuel q node
  let q ← detachRelink q node
  store node ({ · with next := none })
  store node ({ · with prev := none })
  return (node, { q with count := q.count - 1 })

/-! ### Destroy -/

/-- Delete the nodes from `head` on; the answer is what is left of `count`. -/
def destroyLoop : ℕ → Option Addr → UInt32 → CM UInt32
  | 0, _, _ => fail .fuel
  | _ + 1, none, count => return count
  | fuel + 1, some tmp, count => do
    let n ← load (some tmp)
    btQnodeDeleteIgnoreRef tmp
    destroyLoop fuel n.next (count - 1)

def btQueueDestroy (fuel : ℕ) (q : BtQueue) : CM BtQueue := do
  if q.count ≠ 0 then
    let count ← destroyLoop fuel q.head q.count
    if count ≠ 0 then
      fail (.abort .destroyCounter)
  return ⟨none, none, 0, 0⟩

/-! ### Walking the queue -/

/-- The nodes a loop over one of the links visits, in order. -/
def forEach (f : BtQnode → Option Addr) : ℕ → Option Addr → CM (List Addr)
  | 0, _ => fail .fuel
  | _ + 1, none => return []
  | fuel + 1, some a => do
    let n ← load (some a)
    let rest ← forEach f fuel (f n)
    return a :: rest

def forEachBtQueueHead (fuel : ℕ) (q : BtQueue) : CM (List Addr) :=
  forEach (·.next) fuel q.head

end Bluetea.Queue
