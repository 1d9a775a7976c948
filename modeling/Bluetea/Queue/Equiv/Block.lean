import Bluetea.Queue.Bytes
import Bluetea.Queue.Equiv.Node

/-!
# A node in its block

When the size does not wrap, the over-allocation of 64 bytes is exactly what the rounding needs:
the node has its 64-byte header and `len + 1` payload bytes in the block, and the byte in front
of it holds the way back, which no store into the node can change (`btQnodeCreate_roundTrip`).
When the size wraps, no block that `malloc` can return for it holds the node
(`btQnodeCreate_whole_iff`).
-/

namespace Bluetea.Queue

open DoublyLinked Machine Mem

variable {orig len : UInt64}

/-! ### Where the node is -/

/-- The node for `len` bytes in the block at `orig`: on a multiple of 64, whole, and with the byte
in front of it in the block. -/
structure Placement (orig len : UInt64) (user : Addr) (shift : UInt8) : Prop where
  aligned : user.toNat % 64 = 0
  orig_lt : orig < user
  shift : shift.toNat = user.toNat - orig.toNat
  shiftByte : (Chunk.mk orig (nodeSize len)).Contains (user - 1).toNat 1
  room : (Chunk.mk orig (nodeSize len)).Contains user.toNat (sizeofBtQnode.toNat + (len.toNat + 1))
  data_aligned : (user.toNat + sizeofBtQnode.toNat) % 64 = 0

/-- The address is one of the node's bytes: the header, or one of `len + 1` payload bytes. -/
def InNode (user : Addr) (len a : UInt64) : Prop :=
  user.toNat ≤ a.toNat ∧ a.toNat < user.toNat + sizeofBtQnode.toNat + (len.toNat + 1)

section

variable (hlen : len.toNat + 129 < 2 ^ 64) (hwrap : orig.toNat + (nodeSize len).toNat ≤ 2 ^ 64)

include hlen hwrap

theorem placement : Placement orig len (userOf orig) (shiftOf orig) := by
  have hsize := nodeSize_toNat hlen
  have horig : orig.toNat + 64 < 2 ^ 64 := by omega
  have huser := userOf_toNat horig
  have hplaced := placed_userOf hlen hwrap
  constructor
  · omega
  · exact UInt64.lt_iff_toNat_lt.mpr hplaced.base_lt
  · exact hplaced.shift
  · exact hplaced.shiftByte
  · have hroom := userOf_room hlen hwrap
    rw [Nat.add_assoc] at hroom
    exact hroom
  · rw [huser]
    simp only [sizeofBtQnode, UInt64.reduceToNat]
    omega

end

/-! ### The way back -/

/-- The block, without what the byte in front of the node says. -/
def Block.chunk (b : Block) : Chunk := ⟨b.base, b.size⟩

namespace Block.Placed

variable {b : Block} {a : Addr} (h : b.Placed a)
  (hwrap : b.base.toNat + b.size.toNat ≤ 2 ^ 64) {β : Bytes}

include h

/-- The byte in front of the node is not one of its bytes. -/
theorem not_inNode (len : UInt64) : ¬InNode a len (a - 1) := by
  have hlt := h.base_lt
  have hsub := h.toNat_sub_one
  rintro ⟨hle, -⟩
  omega

theorem loadByte (hβ : β (a - 1) = b.shift) : loadByte b.chunk β (a - 1) = .ok b.shift := by
  have hin : b.chunk.Contains (a - 1).toNat 1 := h.shiftByte
  unfold Queue.loadByte
  rw [if_pos hin, hβ]

/-- `bt_qnode_delete_ignore_ref` frees the block. -/
theorem run_deleteIgnoreRefBytes (hβ : β (a - 1) = b.shift) :
    btQnodeDeleteIgnoreRefBytes b.chunk a β = .ok b.base := by
  unfold btQnodeDeleteIgnoreRefBytes
  rw [h.loadByte hβ]
  simp only [bind, Except.bind, h.sub_shift]
  rfl

theorem loadNext : loadPtr b.chunk β a = .ok (ptrAt β a) := by
  have hlt := h.base_lt
  have hend := h.room
  simp only [sizeofBtQnode, UInt64.reduceToNat] at hend
  have hin : b.chunk.Contains a.toNat 8 := by
    show b.base.toNat ≤ _ ∧ _ ≤ b.base.toNat + b.size.toNat
    omega
  unfold loadPtr
  rw [if_pos hin]

include hwrap

theorem loadPrev : loadPtr b.chunk β (a + offsetofPrev) = .ok (ptrAt β (a + offsetofPrev)) := by
  have hlt := h.base_lt
  have hend := h.room
  simp only [sizeofBtQnode, UInt64.reduceToNat] at hend
  have hadd : (a + offsetofPrev).toNat = a.toNat + 8 := by
    simp only [offsetofPrev, UInt64.toNat_add, UInt64.reduceToNat]
    omega
  have hin : b.chunk.Contains (a + offsetofPrev).toNat 8 := by
    rw [hadd]
    show b.base.toNat ≤ _ ∧ _ ≤ b.base.toNat + b.size.toNat
    omega
  unfold loadPtr
  rw [if_pos hin]

/-- `bt_qnode_delete` frees the block too, unless one of the links is not null. -/
theorem run_deleteBytes (hβ : β (a - 1) = b.shift) :
    btQnodeDeleteBytes b.chunk (some a) β
      = if ptrAt β a = 0 ∧ ptrAt β (a + offsetofPrev) = 0 then .ok (some b.base)
        else .error (.abort .deleteReferenced) := by
  unfold btQnodeDeleteBytes
  simp only [h.loadNext, h.loadPrev hwrap, h.loadByte hβ, h.sub_shift, bind, Except.bind]
  by_cases hnext : ptrAt β a = 0
  · by_cases hprev : ptrAt β (a + offsetofPrev) = 0
    · simp [hnext, hprev, pure, Except.pure]
    · simp [hnext, hprev, throw, throwThe, MonadExceptOf.throw]
  · simp [hnext, throw, throwThe, MonadExceptOf.throw]

end Block.Placed

/-! ### Round trip -/

theorem run_btQnodeCreateBytes (hlen : len.toNat + 129 < 2 ^ 64)
    (hwrap : orig.toNat + (nodeSize len).toNat ≤ 2 ^ 64) (β : Bytes) :
    btQnodeCreateBytes (some orig) len β
      = .ok (some (userOf orig), Function.update β (userOf orig - 1) (shiftOf orig)) := by
  have hin : (Chunk.mk orig (nodeSize len)).Contains (userOf orig - 1).toNat 1 :=
    (placed_userOf hlen hwrap).shiftByte
  unfold btQnodeCreateBytes storeByte
  simp only [hin, if_true]
  rfl

/-- The node is placed in its block, and whatever is then written into it, both functions that
delete it compute the start of the block. -/
theorem btQnodeCreate_roundTrip (hlen : len.toNat + 129 < 2 ^ 64)
    (hwrap : orig.toNat + (nodeSize len).toNat ≤ 2 ^ 64) (β : Bytes) :
    ∃ user shift β₁, btQnodeCreateBytes (some orig) len β = .ok (some user, β₁) ∧
      Placement orig len user shift ∧ β₁ (user - 1) = shift ∧
      (∀ a, a ≠ user - 1 → β₁ a = β a) ∧
      ∀ β₂ : Bytes, (∀ a, ¬InNode user len a → β₂ a = β₁ a) →
        btQnodeDeleteIgnoreRefBytes ⟨orig, nodeSize len⟩ user β₂ = .ok orig ∧
        btQnodeDeleteBytes ⟨orig, nodeSize len⟩ (some user) β₂
          = if ptrAt β₂ user = 0 ∧ ptrAt β₂ (user + offsetofPrev) = 0 then .ok (some orig)
            else .error (.abort .deleteReferenced) := by
  have hplaced := placed_userOf hlen hwrap
  refine ⟨_, shiftOf orig, _, run_btQnodeCreateBytes hlen hwrap β, placement hlen hwrap,
    Function.update_self (userOf orig - 1) _ β, ?_, ?_⟩
  · intro a ha
    exact Function.update_of_ne ha _ β
  · -- the shift lies in front of the node, where the caller does not write
    intro β₂ hβ₂
    have hshift : β₂ (userOf orig - 1) = shiftOf orig := by
      rw [hβ₂ _ (hplaced.not_inNode len)]
      exact Function.update_self (userOf orig - 1) _ β
    exact ⟨hplaced.run_deleteIgnoreRefBytes hshift, hplaced.run_deleteBytes hwrap hshift⟩

/-- The block at 0x1000 is already on a multiple of 64: the node is 64 bytes further on. -/
theorem btQnodeCreate_roundTrip_aligned :
    ∃ user shift β₁, btQnodeCreateBytes (some 0x1000) 5 (fun _ => 0) = .ok (some user, β₁) ∧
      Placement 0x1000 5 user shift ∧ β₁ (user - 1) = shift ∧
      (∀ a, a ≠ user - 1 → β₁ a = 0) ∧
      ∀ β₂ : Bytes, (∀ a, ¬InNode user 5 a → β₂ a = β₁ a) →
        btQnodeDeleteIgnoreRefBytes ⟨0x1000, nodeSize 5⟩ user β₂ = .ok 0x1000 ∧
        btQnodeDeleteBytes ⟨0x1000, nodeSize 5⟩ (some user) β₂
          = if ptrAt β₂ user = 0 ∧ ptrAt β₂ (user + offsetofPrev) = 0 then .ok (some 0x1000)
            else .error (.abort .deleteReferenced) :=
  btQnodeCreate_roundTrip (by decide) (by decide) fun _ => 0

/-! ### The two memories agree -/

/-- The bytes at and in front of the node at `a` are what `m` says they are. -/
structure Shows (β : Bytes) (m : Mem) (a : Addr) (b : Block) : Prop where
  shift : β (a - 1) = b.shift
  next : ptrAt β a = 0 ↔ (m.link a).next = none
  prev : ptrAt β (a + offsetofPrev) = 0 ↔ (m.link a).prev = none

/-- `bt_qnode_delete` does the same on the bytes and on the memory of nodes. -/
theorem Shows.run_delete {β : Bytes} {m : Mem} {a : Addr} {b : Block} (h : Shows β m a b)
    (hm : m.WF) (hb : m.blocks a = some b) (hwrap : b.base.toNat + b.size.toNat ≤ 2 ^ 64) :
    (btQnodeDeleteBytes b.chunk (some a) β = .ok (some b.base) ∧ (btQnodeDelete (some a)).run m
        = .ok ((), m.deleted a)) ∨
      (btQnodeDeleteBytes b.chunk (some a) β = .error (.abort .deleteReferenced) ∧
        (btQnodeDelete (some a)).run m = .error ⟨.abort .deleteReferenced, m.log (.read a)⟩) := by
  have ha : m.Live a := ⟨b, hb⟩
  have hbytes := (hm.placed a b hb).run_deleteBytes hwrap h.shift
  by_cases hlink : (m.link a).next = none ∧ (m.link a).prev = none
  · left
    rw [if_pos ⟨h.next.mpr hlink.1, h.prev.mpr hlink.2⟩] at hbytes
    exact ⟨hbytes, run_btQnodeDelete hm ha hlink.1 hlink.2⟩
  · right
    rw [if_neg fun hnull => hlink ⟨h.next.mp hnull.1, h.prev.mp hnull.2⟩] at hbytes
    refine ⟨hbytes, run_btQnodeDelete_abort hm ha fun hnone => hlink ?_⟩
    rw [hnone]
    exact ⟨rfl, rfl⟩

/-- Both versions of `bt_qnode_create` return the same node, with the same byte in front. -/
theorem run_btQnodeCreate_agree {m : Mem} {β : Bytes} (hlen : len.toNat + 129 < 2 ^ 64)
    (h : m.MallocOk (nodeSize len) orig) : ∃ user m' b β₁,
      (btQnodeCreate (some orig) len).run m = .ok (some user, m') ∧
      btQnodeCreateBytes (some orig) len β = .ok (some user, β₁) ∧
      m'.blocks user = some b ∧ β₁ (user - 1) = b.shift :=
  ⟨_, _, _, _, run_btQnodeCreate hlen h, run_btQnodeCreateBytes hlen h.no_wrap β,
    Function.update_self (userOf orig) _ m.blocks,
    Function.update_self (userOf orig - 1) _ β⟩

/-! ### Oversized requests -/

/-- `bt_qnode_create(len)` returns NULL, or a node whose header and payload are in the block that
`malloc` returned. -/
def CreatesWhole (m : Mem) (ans : Option UInt64) (len : UInt64) : Prop :=
  ∃ r m', (btQnodeCreate ans len).run m = .ok (r, m') ∧
    ∀ user, r = some user → ∃ b, m'.blocks user = some b ∧ ans = some b.base ∧
      b.size = nodeSize len ∧ b.Contains user.toNat (sizeofBtQnode.toNat + len.toNat)

/-- A size that wrapped is that of a block too small for the node. -/
theorem not_contains_of_wrap {b : Block} {a : Addr} (hsize : b.size = nodeSize len)
    (hlen : 2 ^ 64 ≤ len.toNat + 129) :
    ¬b.Contains a.toNat (sizeofBtQnode.toNat + len.toNat) := by
  have hlt := len.toNat_lt
  have hnat : (nodeSize len).toNat = len.toNat + 129 - 2 ^ 64 := by
    simp only [nodeSize, sizeofBtQnode, UInt64.toNat_add, UInt64.reduceToNat]
    omega
  rintro ⟨hle, hend⟩
  rw [hsize, hnat] at hend
  simp only [sizeofBtQnode, UInt64.reduceToNat] at hend
  omega

/-- The node is whole exactly when there is none, or the size does not wrap. -/
theorem btQnodeCreate_whole_iff (m : Mem) (ans : Option UInt64) (len : UInt64)
    (hans : ∀ orig, ans = some orig → m.MallocOk (nodeSize len) orig) :
    CreatesWhole m ans len ↔ ans = none ∨ len.toNat + 129 < 2 ^ 64 := by
  constructor
  · rintro ⟨r, m', hrun, hwhole⟩
    cases ans with
    | none => exact Or.inl rfl
    | some orig =>
      right
      by_contra hlen
      -- the function either stops at its one store or returns the node
      unfold btQnodeCreate at hrun
      by_cases hbyte : (Block.mk orig (nodeSize len) (shiftOf orig)).Contains
          (userOf orig - 1).toNat 1
      · simp only [hbyte, if_true] at hrun
        obtain ⟨rfl, rfl⟩ := Prod.mk.inj (Except.ok.inj hrun)
        obtain ⟨b, -, -, hsize, hin⟩ := hwhole _ rfl
        exact not_contains_of_wrap hsize (Nat.le_of_not_lt hlen) hin
      · simp only [hbyte, if_false] at hrun
        cases hrun
  · intro hcond
    cases ans with
    | none => exact ⟨none, m, rfl, fun user huser => by cases huser⟩
    | some orig =>
      have hlen := hcond.resolve_left (Option.some_ne_none orig)
      have hok := hans orig rfl
      refine ⟨_, _, run_btQnodeCreate hlen hok, ?_⟩
      rintro user ⟨⟩
      refine ⟨_, Function.update_self (userOf orig) _ m.blocks, rfl, rfl, ?_⟩
      have hroom := userOf_room hlen hok.no_wrap
      exact ⟨hroom.1, by have := hroom.2; omega⟩

theorem btQnodeCreate_whole_iff_five :
    CreatesWhole .empty (some 0x1000) 5 ↔ some (0x1000 : UInt64) = none ∨ 5 + 129 < 2 ^ 64 :=
  btQnodeCreate_whole_iff .empty (some 0x1000) 5 fun orig h => by
    obtain rfl := Option.some.inj h
    exact ⟨by decide, by decide, fun a b hb => by cases hb⟩

/-- For the largest length the size is 128: `malloc` finds such a block, and only 64 bytes of it
follow the place of the node. -/
theorem btQnodeCreate_truncates :
    nodeSize 0xffffffffffffffff = 128 ∧
      (Mem.empty.MallocOk (nodeSize 0xffffffffffffffff) 0x1000) ∧
      ¬CreatesWhole .empty (some 0x1000) 0xffffffffffffffff := by
  refine ⟨by decide, ⟨by decide, by decide, fun a b hb => by cases hb⟩, ?_⟩
  rintro ⟨r, m', hrun, hwhole⟩
  obtain ⟨rfl, rfl⟩ := Prod.mk.inj (Except.ok.inj hrun)
  obtain ⟨b, -, -, hsize, hin⟩ := hwhole _ rfl
  exact not_contains_of_wrap hsize (by decide) hin

end Bluetea.Queue
