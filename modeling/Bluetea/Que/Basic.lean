import Mathlib.Algebra.Group.Nat.Defs
import Mathlib.Logic.Function.Basic
import Bluetea.DoublyLinked.Basic

/-!
# The queue of the old library

`old/src/bluetea/include/bluetea/lib/que.h`: a FIFO of at most `capacity` nodes.  A node is the
block that `aligned_alloc` returns, so the memory is kept by the addresses of the blocks.  What
`aligned_alloc` answers is an input of each call; `AllocOk` is what it promises.

Enqueue sets both links of a node.  Dequeue reads the `next` link of the head and writes to no node,
so the new head keeps pointing back.  With `ndebug` the assertions are left out.
-/

namespace Bluetea.Que

open DoublyLinked

abbrev Addr := UInt64

/-- `struct que_node`, with the bytes from the start of `data` on. -/
structure QueNode extends Link Addr where
  len : UInt64
  data : List UInt8
  deriving DecidableEq, Repr

/-- `sizeof(struct que_node)`, where `data` begins: it is aligned to 64. -/
def sizeofQueNode : UInt64 := 64

/-- `struct que_master`. -/
structure QueMaster where
  head : Option Addr
  tail : Option Addr
  count : UInt32
  capacity : UInt32
  deriving DecidableEq, Repr

/-- The assertions. -/
inductive AssertSite
  /-- `tail == NULL` in `que_enqueue`. -/
  | enqueueTailNull
  /-- `tail != NULL` in `que_enqueue`. -/
  | enqueueTail
  /-- `que->head == NULL` in `que_dequeue`. -/
  | dequeueHeadNull
  /-- `que->tail == NULL` in `que_dequeue`. -/
  | dequeueTailNull
  /-- `que->count == 1` in `que_dequeue`. -/
  | dequeueCount
  /-- `ret == tail` in `que_dequeue`. -/
  | dequeueTail
  deriving DecidableEq, Repr

/-- What ends a run early. -/
inductive Fault
  | nullDeref
  | useAfterFree
  | outOfBounds
  | invalidFree
  | assert (site : AssertSite)
  /-- A loop was given too few iterations. -/
  | fuel
  deriving DecidableEq, Repr

/-- The sizes of the live blocks, the contents of all, `errno`, and what was allocated and what was
freed, each in order. -/
structure Mem where
  blocks : Addr → Option UInt64
  node : Addr → QueNode
  errno : Int
  allocated : List Addr
  freed : List Addr

/-- Code that works on the memory and may fault. -/
abbrev CM := StateT Mem (Except Fault)

def EAGAIN : Int := 11

def ENOMEM : Int := 12

namespace Mem

/-- A memory in which nothing is live. -/
def empty : Mem := ⟨fun _ => none, fun _ => ⟨⟨none, none⟩, 0, []⟩, 0, [], []⟩

def setErrno (m : Mem) (e : Int) : Mem := { m with errno := e }

/-- Overwrite the contents of the node at `a`. -/
def update (m : Mem) (a : Addr) (f : QueNode → QueNode) : Mem :=
  { m with node := Function.update m.node a (f (m.node a)) }

/-- A new live block. -/
def install (m : Mem) (a : Addr) (size : UInt64) : Mem :=
  { m with blocks := Function.update m.blocks a (some size), allocated := m.allocated ++ [a] }

/-- The block at `a` is given back. -/
def release (m : Mem) (a : Addr) : Mem :=
  { m with blocks := Function.update m.blocks a none, freed := m.freed ++ [a] }

/-- The links of the node at `a`. -/
def link (m : Mem) (a : Addr) : Link Addr := (m.node a).toLink

/-- What `aligned_alloc(64, size)` promises about a new block at `a`. -/
structure AllocOk (m : Mem) (size : UInt64) (a : Addr) : Prop where
  ne_null : a ≠ 0
  aligned : 64 ∣ a.toNat
  no_wrap : a.toNat + size.toNat ≤ 2 ^ 64
  apart : ∀ a' size', m.blocks a' = some size' →
    a.toNat + size.toNat ≤ a'.toNat ∨ a'.toNat + size'.toNat ≤ a.toNat

end Mem

/-! ### Accesses -/

def setErrno (e : Int) : CM Unit := modify (·.setErrno e)

/-- The node `*p`, whose first `n` bytes may be accessed. -/
def checked (p : Option Addr) (n : ℕ) : CM Addr := do
  match p with
  | none => throw .nullDeref
  | some a =>
    match (← get).blocks a with
    | none => throw .useAfterFree
    | some size => if n ≤ size.toNat then return a else throw .outOfBounds

/-- Read the fields of `*p` in front of the data. -/
def load (p : Option Addr) : CM QueNode := do
  let a ← checked p sizeofQueNode.toNat
  return (← get).node a

/-- Write a field of `*p` in front of the data. -/
def store (p : Option Addr) (f : QueNode → QueNode) : CM Unit := do
  let a ← checked p sizeofQueNode.toNat
  modify (·.update a f)

/-- `memcpy(p->data, src, n)` -/
def memcpyData (p : Option Addr) (src : List UInt8) (n : UInt64) : CM Unit := do
  let a ← checked p (sizeofQueNode.toNat + n.toNat)
  if src.length < n.toNat then
    throw .outOfBounds
  modify fun m => m.update a fun nd =>
    { nd with data := src.take n.toNat ++ nd.data.drop n.toNat }

/-- `p->data[i] = '\0'` -/
def storeNul (p : Option Addr) (i : UInt64) : CM Unit := do
  let a ← checked p (sizeofQueNode.toNat + i.toNat + 1)
  modify fun m => m.update a fun nd =>
    { nd with data := nd.data.take i.toNat ++ 0 :: nd.data.drop (i.toNat + 1) }

/-- `free(p)` -/
def free (p : Option Addr) : CM Unit := do
  match p with
  | none => return
  | some a =>
    match (← get).blocks a with
    | none => throw .invalidFree
    | some _ => modify (·.release a)

/-- `TASSERT(c)` -/
def tassert (ndebug : Bool) (c : Prop) [Decidable c] (site : AssertSite) : CM Unit :=
  if ndebug = false ∧ ¬c then throw (.assert site) else pure ()

/-! ### The functions -/

def queInit (_que : QueMaster) (capacity : UInt32) : QueMaster := ⟨none, none, 0, capacity⟩

def queCount (que : QueMaster) : UInt32 := que.count

/-- The number of bytes `que_enqueue` asks for. -/
def nodeSize (len : UInt64) : UInt64 := sizeofQueNode + len + 2

/-- `aligned_alloc(64u, size)` -/
def alignedAlloc (ans : Option Addr) (size : UInt64) : CM (Option Addr) := do
  match ans with
  | none =>
    setErrno ENOMEM
    return none
  | some a =>
    modify (·.install a size)
    return some a

/-- Write the length, the `next` link and the payload of a new node. -/
def enqueueFill (node : Addr) (data : List UInt8) (len : UInt64) : CM Unit := do
  store (some node) ({ · with len := len })
  store (some node) ({ · with next := none })
  memcpyData (some node) data len
  storeNul (some node) len

/-- Link a new node behind the tail, or as the only one. -/
def enqueueLink (ndebug : Bool) (que : QueMaster) (node : Addr) : CM QueMaster := do
  if que.head = none then
    tassert ndebug (que.tail = none) .enqueueTailNull
    store (some node) ({ · with prev := none })
    return { que with head := some node, tail := some node }
  else
    tassert ndebug (que.tail ≠ none) .enqueueTail
    store (some node) ({ · with prev := que.tail })
    store que.tail ({ · with next := some node })
    return { que with tail := some node }

def queEnqueue (ndebug : Bool) (ans : Option Addr) (que : QueMaster) (data : List UInt8)
    (len : UInt64) : CM (Option Addr × QueMaster) := do
  if que.count ≥ que.capacity then
    setErrno EAGAIN
    return (none, que)
  match ← alignedAlloc ans (nodeSize len) with
  | none => return (none, que)
  | some node =>
    enqueueFill node data len
    let que ← enqueueLink ndebug que node
    return (some node, { que with count := que.count + 1 })

def queDequeue (ndebug : Bool) (que : QueMaster) : CM (Option Addr × QueMaster) := do
  if que.count = 0 then
    tassert ndebug (que.head = none) .dequeueHeadNull
    tassert ndebug (que.tail = none) .dequeueTailNull
    return (none, que)
  let ret := que.head
  let n ← load que.head
  if n.next = none then
    tassert ndebug (que.count = 1) .dequeueCount
    tassert ndebug (ret = que.tail) .dequeueTail
    return (ret, { que with head := none, tail := none, count := que.count - 1 })
  else return (ret, { que with head := n.next, count := que.count - 1 })

def queNodeDestroy (node : Option Addr) : CM Unit := free node

/-- Free the nodes from `head` on. -/
def destroyLoop : ℕ → Option Addr → CM Unit
  | 0, _ => throw .fuel
  | _ + 1, none => return
  | fuel + 1, some tmp => do
    let n ← load (some tmp)
    queNodeDestroy (some tmp)
    destroyLoop fuel n.next

def queDestroy (fuel : ℕ) (que : QueMaster) : CM QueMaster := do
  if que.count ≠ 0 then
    destroyLoop fuel que.head
  return queInit que 0

end Bluetea.Que
