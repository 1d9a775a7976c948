import Bluetea.Queue.Node

/-!
# A queue node as bytes

The same functions as in `Queue.Node` on the bytes of one block.  The memory of that module keeps
the shift byte beside the contents of the node; here it is a byte in front of it, which the
stores into the node could reach if the node were placed badly.
-/

namespace Bluetea.Queue

/-- The contents of the memory, by address. -/
abbrev Bytes := UInt64 → UInt8

/-- The block that `malloc(size)` returned. -/
structure Chunk where
  base : UInt64
  size : UInt64
  deriving DecidableEq, Repr

/-- The `n` bytes at `a` lie in the block. -/
def Chunk.Contains (c : Chunk) (a n : ℕ) : Prop :=
  c.base.toNat ≤ a ∧ a + n ≤ c.base.toNat + c.size.toNat

instance (c : Chunk) (a n : ℕ) : Decidable (c.Contains a n) :=
  inferInstanceAs (Decidable (_ ∧ _))

def loadByte (c : Chunk) (β : Bytes) (a : UInt64) : Except Fault UInt8 :=
  if c.Contains a.toNat 1 then .ok (β a) else .error .outOfBounds

def storeByte (c : Chunk) (β : Bytes) (a : UInt64) (v : UInt8) : Except Fault Bytes :=
  if c.Contains a.toNat 1 then .ok (Function.update β a v) else .error .outOfBounds

/-- The pointer in the 8 bytes at `a`, the least significant one first. -/
def ptrAt (β : Bytes) (a : UInt64) : UInt64 :=
  (List.range 8).foldr (fun i p => (p <<< 8) ||| (β (a + .ofNat i)).toUInt64) 0

def loadPtr (c : Chunk) (β : Bytes) (a : UInt64) : Except Fault UInt64 :=
  if c.Contains a.toNat 8 then .ok (ptrAt β a) else .error .outOfBounds

/-- `offsetof(bt_qnode_t, prev)` -/
def offsetofPrev : UInt64 := 8

/-- `bt_qnode_create`; `ans` is what `malloc` returns. -/
def btQnodeCreateBytes (ans : Option UInt64) (len : UInt64) (β : Bytes) :
    Except Fault (Option Addr × Bytes) :=
  match ans with
  | none => .ok (none, β)
  | some orig => do
    let user := userOf orig
    let β ← storeByte ⟨orig, nodeSize len⟩ β (user - 1) (shiftOf orig)
    return (some user, β)

/-- `bt_qnode_delete_ignore_ref`, up to the address it passes to `free`. -/
def btQnodeDeleteIgnoreRefBytes (c : Chunk) (user : Addr) (β : Bytes) : Except Fault UInt64 := do
  let shift ← loadByte c β (user - 1)
  return user - shift.toUInt64

/-- `bt_qnode_delete`, up to the address it passes to `free`. -/
def btQnodeDeleteBytes (c : Chunk) (user : Option Addr) (β : Bytes) :
    Except Fault (Option UInt64) := do
  match user with
  | none => return none
  | some user =>
    let next ← loadPtr c β user
    if next ≠ 0 then
      throw (.abort .deleteReferenced)
    let prev ← loadPtr c β (user + offsetofPrev)
    if prev ≠ 0 then
      throw (.abort .deleteReferenced)
    let shift ← loadByte c β (user - 1)
    return some (user - shift.toUInt64)

end Bluetea.Queue
