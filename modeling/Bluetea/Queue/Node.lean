import Mathlib.Algebra.Group.Nat.Defs
import Mathlib.Logic.Function.Basic
import Bluetea.DoublyLinked.Basic

/-!
# Queue nodes and the memory they live in

The memory of `lib/queue.c` on a 64-bit target.  `bt_qnode_create` asks `malloc` for a block,
rounds the block's address up to a multiple of 64 and stores, in the byte before the rounded
address, how far it moved; the rounded address is the node.  The memory is therefore kept by
user address: `blocks a` is the live block whose node starts at `a`, `node a` what its bytes
hold.  A block that is not live has contents, but reading or writing them is a fault.

`malloc` answers come from outside: each allocation takes `ans`, the address of the new block or
`none` when there is no memory.  `MallocOk` is what `malloc` promises about a new address: it is
not null, the block does not wrap around and overlaps no live block.  A freed address may come
back.
-/

namespace Bluetea.Queue

open DoublyLinked

/-- The address of a node. -/
abbrev Addr := UInt64

/-- `bt_qnode_t`: the two links, the payload length and the bytes of the data area. -/
structure BtQnode extends Link Addr where
  len : UInt64
  data : List UInt8
  deriving DecidableEq, Repr

/-- `sizeof(bt_qnode_t)`; the data area is aligned to 64 and begins here. -/
def sizeofBtQnode : UInt64 := 64

/-- A live `malloc` block and the shift byte stored in front of its node. -/
structure Block where
  base : UInt64
  size : UInt64
  shift : UInt8
  deriving DecidableEq, Repr

/-- The `n` bytes at `a` lie in the block. -/
def Block.Contains (b : Block) (a n : ℕ) : Prop :=
  b.base.toNat ≤ a ∧ a + n ≤ b.base.toNat + b.size.toNat

instance (b : Block) (a n : ℕ) : Decidable (b.Contains a n) :=
  inferInstanceAs (Decidable (_ ∧ _))

/-- The byte ranges `[base, base + size)` and `[base', base' + size')` do not meet. -/
def Apart (base size base' size' : UInt64) : Prop :=
  base.toNat + size.toNat ≤ base'.toNat ∨ base'.toNat + size'.toNat ≤ base.toNat

instance (base size base' size' : UInt64) : Decidable (Apart base size base' size') :=
  inferInstanceAs (Decidable (_ ∨ _))

/-- One access to the memory of a node, its allocation and its end included. -/
inductive Event
  | alloc (a : Addr)
  | read (a : Addr)
  | write (a : Addr)
  | free (a : Addr)
  deriving DecidableEq, Repr

/-- The node an access goes to. -/
def Event.addr : Event → Addr
  | alloc a => a
  | read a => a
  | write a => a
  | free a => a

/-- The node that is new, if the access is the `malloc` of its block. -/
def Event.alloced? : Event → Option Addr
  | alloc a => some a
  | _ => none

/-- The node that is freed, if the access is a `free`. -/
def Event.freed? : Event → Option Addr
  | free a => some a
  | _ => none

/-- The places where `lib/queue.c` stops the program. -/
inductive AbortSite
  /-- `assert(q->tail == NULL)` in `bt_queue_enqueue`. -/
  | enqueueTail
  /-- `assert(q->head)` in `bt_queue_dequeue`. -/
  | dequeueHead
  /-- `assert(q->head->prev == NULL)` in `bt_queue_dequeue`. -/
  | dequeueHeadPrev
  /-- `FATAL: Trying to delete referenced node!`. -/
  | deleteReferenced
  /-- `FATAL: Invalid counter when iterating queue destroy!`. -/
  | destroyCounter
  /-- `FATAL: Trying to detach invalid node!` with its `err_ident`. -/
  | detachInvalid (errIdent : ℕ)
  deriving DecidableEq, Repr

/-- What ends a run early. -/
inductive Fault
  | nullDeref
  | useAfterFree
  | outOfBounds
  | invalidFree
  | abort (site : AbortSite)
  /-- A loop was given too few iterations. -/
  | fuel
  deriving DecidableEq, Repr

/-- The memory: live blocks, contents, `errno` and the accesses made so far. -/
structure Mem where
  blocks : Addr → Option Block
  node : Addr → BtQnode
  errno : Int
  trace : List Event

/-- A fault, and the memory that the code leaves behind. -/
structure Stop where
  fault : Fault
  mem : Mem

/-- Code that works on the memory and may fault. -/
abbrev CM := StateT Mem (Except Stop)

/-- Stop here; what was done to the memory so far stays done. -/
def fail {α : Type} (e : Fault) : CM α := do
  throw ⟨e, ← get⟩

/-- What the caller of a function sees: there is no caller any more when the program stopped. -/
def outcome {α : Type} (x : CM α) (m : Mem) : Except Fault (α × Mem) :=
  (x.run m).mapError Stop.fault

def EAGAIN : Int := 11

def ENOMEM : Int := 12

namespace Mem

/-- A memory in which nothing is live. -/
def empty : Mem := ⟨fun _ => none, fun _ => ⟨⟨none, none⟩, 0, []⟩, 0, []⟩

def setErrno (m : Mem) (e : Int) : Mem := { m with errno := e }

def log (m : Mem) (e : Event) : Mem := { m with trace := m.trace ++ [e] }

/-- Overwrite the contents of the node at `a`. -/
def update (m : Mem) (a : Addr) (f : BtQnode → BtQnode) : Mem :=
  { m with node := Function.update m.node a (f (m.node a)) }

/-- A new live block with its node at `a`. -/
def install (m : Mem) (a : Addr) (b : Block) : Mem :=
  { m with blocks := Function.update m.blocks a (some b) }

/-- The block of the node at `a` is given back. -/
def release (m : Mem) (a : Addr) : Mem :=
  { m with blocks := Function.update m.blocks a none }

/-- The links of the node at `a`. -/
def link (m : Mem) (a : Addr) : Link Addr := (m.node a).toLink

/-- The nodes allocated so far, in order. -/
def allocated (m : Mem) : List Addr := m.trace.filterMap Event.alloced?

/-- The nodes freed so far, in order. -/
def freed (m : Mem) : List Addr := m.trace.filterMap Event.freed?

/-- What `malloc(size)` promises about a new block at `orig`. -/
structure MallocOk (m : Mem) (size orig : UInt64) : Prop where
  ne_null : orig ≠ 0
  no_wrap : orig.toNat + size.toNat ≤ 2 ^ 64
  apart : ∀ a b, m.blocks a = some b → Apart orig size b.base b.size

end Mem

/-! ### Accesses -/

def setErrno (e : Int) : CM Unit := modify (·.setErrno e)

/-- The block in which the `n` bytes from the start of the node `*p` on may be accessed. -/
def checked (p : Option Addr) (n : ℕ) : CM Addr := do
  match p with
  | none => fail .nullDeref
  | some a =>
    match (← get).blocks a with
    | none => fail .useAfterFree
    | some b => if b.Contains a.toNat n then return a else fail .outOfBounds

/-- Read the header of `*p`. -/
def load (p : Option Addr) : CM BtQnode := do
  let a ← checked p sizeofBtQnode.toNat
  modify (·.log (.read a))
  return (← get).node a

/-- Write a field of `*p`. -/
def store (p : Option Addr) (f : BtQnode → BtQnode) : CM Unit := do
  let a ← checked p sizeofBtQnode.toNat
  modify fun m => (m.update a f).log (.write a)

/-- `memcpy(p->data, src, n)`. -/
def memcpyData (p : Option Addr) (src : List UInt8) (n : UInt64) : CM Unit := do
  let a ← checked p (sizeofBtQnode.toNat + n.toNat)
  if src.length < n.toNat then
    fail .outOfBounds
  modify fun m => (m.update a fun nd =>
    { nd with data := src.take n.toNat ++ nd.data.drop n.toNat }).log (.write a)

/-- Read the shift byte in front of the node at `user`. -/
def loadShift (user : Addr) : CM UInt8 := do
  match (← get).blocks user with
  | none => fail .useAfterFree
  | some b =>
    if b.Contains (user - 1).toNat 1 then
      modify (·.log (.read user))
      return b.shift
    else fail .outOfBounds

/-- `free(orig)`, where the caller computed `orig` from the node at `user`: only the start of a
live block may be freed. -/
def free (user : Addr) (orig : UInt64) : CM Unit := do
  match (← get).blocks user with
  | none => fail .invalidFree
  | some b =>
    if b.base = orig then modify fun m => (m.release user).log (.free user)
    else fail .invalidFree

/-! ### Creating and deleting nodes -/

/-- The number of bytes `bt_qnode_create` asks for. -/
def nodeSize (len : UInt64) : UInt64 := sizeofBtQnode + len + 1 + 0x3f + 1

/-- The node in the block at `orig`: room for the shift byte, rounded to a multiple of 64. -/
def userOf (orig : UInt64) : Addr := (orig + 0x3f + 1) &&& ~~~0x3f

/-- How far the node is from the start of its block, in one byte. -/
def shiftOf (orig : UInt64) : UInt8 := (userOf orig - orig).toUInt8

def btQnodeCreate (ans : Option UInt64) (len : UInt64) : CM (Option Addr) := do
  match ans with
  | none => return none
  | some orig =>
    let user := userOf orig
    let b : Block := ⟨orig, nodeSize len, shiftOf orig⟩
    modify fun m => (m.install user b).log (.alloc user)
    -- the shift byte is the one store this function makes
    if b.Contains (user - 1).toNat 1 then
      modify (·.log (.write user))
      return some user
    else fail .outOfBounds

def btQnodeDeleteIgnoreRef (user : Addr) : CM Unit := do
  let shift ← loadShift user
  free user (user - shift.toUInt64)

def btQnodeDelete (user : Option Addr) : CM Unit := do
  match user with
  | none => return
  | some user =>
    let n ← load user
    if n.next.isSome || n.prev.isSome then
      fail (.abort .deleteReferenced)
    let shift ← loadShift user
    free user (user - shift.toUInt64)

/-- `bt_qnode_data`: the bytes from the start of the data area on. -/
def btQnodeData (n : BtQnode) : List UInt8 := n.data

def btQnodeLen (n : BtQnode) : UInt64 := n.len

end Bluetea.Queue
