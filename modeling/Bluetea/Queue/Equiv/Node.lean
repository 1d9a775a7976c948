import Bluetea.Queue.Equiv.Mem

/-!
# Creating and deleting nodes

For a length whose size computation does not wrap, `bt_qnode_create` places the node strictly
inside the new block, with a shift that fits its byte and room for the header and `len + 1`
payload bytes (`placed_userOf`, `userOf_room`).  Deleting a live node computes the start of its
block back from the shift byte and frees exactly that block (`run_btQnodeDeleteIgnoreRef`).
-/

namespace Bluetea.Queue

open DoublyLinked Machine Mem

/-! ### The address arithmetic -/

theorem nodeSize_toNat {len : UInt64} (hlen : len.toNat + 129 < 2 ^ 64) :
    (nodeSize len).toNat = len.toNat + 129 := by
  simp only [nodeSize, sizeofBtQnode, UInt64.toNat_add, UInt64.reduceToNat]
  omega

/-- The node starts at the next multiple of 64 that leaves room for the shift byte. -/
theorem userOf_toNat {orig : UInt64} (horig : orig.toNat + 64 < 2 ^ 64) :
    (userOf orig).toNat = (orig.toNat + 64) / 64 * 64 := by
  have hadd : (orig + 0x3f + 1).toNat = orig.toNat + 64 := by
    simp only [UInt64.toNat_add, UInt64.reduceToNat]
    omega
  rw [userOf, Machine.toNat_and_not_mask _ _ 6 rfl, hadd]
  norm_num

theorem shiftOf_toNat {orig : UInt64} (horig : orig.toNat + 64 < 2 ^ 64) :
    (shiftOf orig).toNat = (userOf orig).toNat - orig.toNat := by
  have huser := userOf_toNat horig
  have hle : orig ≤ userOf orig := by
    rw [UInt64.le_iff_toNat_le]
    omega
  rw [shiftOf, UInt64.toNat_toUInt8, UInt64.toNat_sub_of_le _ _ hle]
  omega

section Placed

variable {orig len : UInt64} (hlen : len.toNat + 129 < 2 ^ 64)
  (hwrap : orig.toNat + (nodeSize len).toNat ≤ 2 ^ 64)

include hlen hwrap

/-- The new node lies in its block and the shift byte leads back. -/
theorem placed_userOf :
    (Block.mk orig (nodeSize len) (shiftOf orig)).Placed (userOf orig) := by
  have hsize := nodeSize_toNat hlen
  have horig : orig.toNat + 64 < 2 ^ 64 := by omega
  have huser := userOf_toNat horig
  refine ⟨?_, shiftOf_toNat horig, ?_⟩
  · show orig.toNat < _
    omega
  · show _ ≤ orig.toNat + (nodeSize len).toNat
    simp only [sizeofBtQnode, UInt64.reduceToNat]
    omega

/-- The header and `len + 1` payload bytes lie in the block. -/
theorem userOf_room :
    (Block.mk orig (nodeSize len) (shiftOf orig)).Contains (userOf orig).toNat
      (sizeofBtQnode.toNat + len.toNat + 1) := by
  have hsize := nodeSize_toNat hlen
  have huser := userOf_toNat (show orig.toNat + 64 < 2 ^ 64 by omega)
  show orig.toNat ≤ _ ∧ _ ≤ orig.toNat + (nodeSize len).toNat
  simp only [sizeofBtQnode, UInt64.reduceToNat]
  omega

end Placed

theorem Block.Placed.toNat_sub_one {b : Block} {a : Addr} (h : b.Placed a) :
    (a - 1).toNat = a.toNat - 1 := by
  have hlt := h.base_lt
  rw [UInt64.toNat_sub_of_le _ _ (by rw [UInt64.le_iff_toNat_le]; simp; omega)]
  rfl

/-- The shift byte lies in the block, in front of the node. -/
theorem Block.Placed.shiftByte {b : Block} {a : Addr} (h : b.Placed a) :
    b.Contains (a - 1).toNat 1 := by
  have hlt := h.base_lt
  have hroom := h.room
  rw [Block.Contains, h.toNat_sub_one]
  omega

/-- Walking back by the shift byte ends at the start of the block. -/
theorem Block.Placed.sub_shift {b : Block} {a : Addr} (h : b.Placed a) :
    a - b.shift.toUInt64 = b.base := by
  have hlt := h.base_lt
  have hshift := h.shift
  apply UInt64.toNat_inj.mp
  rw [UInt64.toNat_sub_of_le _ _ (by rw [UInt64.le_iff_toNat_le]; simp; omega)]
  simp only [UInt8.toNat_toUInt64]
  omega

/-! ### Creating a node -/

namespace Mem

/-- The node at `a` has the payload length and the payload `bytes`. -/
structure Holds (m : Mem) (a : Addr) (bytes : List UInt8) : Prop where
  len : (m.node a).len.toNat = bytes.length
  data : (m.node a).data.take bytes.length = bytes

theorem Relinked.holds {m m' : Mem} {a : Addr} {bytes : List UInt8} (h : m.Relinked m')
    (ha : m.Holds a bytes) : m'.Holds a bytes :=
  ⟨by rw [h.len]; exact ha.len, by rw [h.data]; exact ha.data⟩

/-- `m'` is `m` with the new live node `a`, whose payload is `bytes`. -/
structure Created (m m' : Mem) (a : Addr) (bytes : List UInt8) : Prop where
  fresh : ¬m.Live a
  live : m'.Live a
  wf : m'.WF
  blocks : ∀ x, x ≠ a → m'.blocks x = m.blocks x
  node : ∀ x, x ≠ a → m'.node x = m.node x
  holds : m'.Holds a bytes
  errno : m'.errno = m.errno
  allocated : m'.allocated = m.allocated ++ [a]
  freed : m'.freed = m.freed

/-- A block that `malloc` may return is at a new user address. -/
theorem MallocOk.fresh {m : Mem} {orig len : UInt64} (hm : m.WF)
    (hlen : len.toNat + 129 < 2 ^ 64) (h : m.MallocOk (nodeSize len) orig) :
    ¬m.Live (userOf orig) := by
  rintro ⟨b, hb⟩
  have hnew := placed_userOf hlen h.no_wrap
  have hold := hm.placed _ _ hb
  have hapart := h.apart _ _ hb
  -- both blocks would contain the header of the node
  have h1 := hnew.base_lt
  have h2 := hnew.room
  have h3 := hold.base_lt
  have h4 := hold.room
  unfold Apart at hapart
  simp only [sizeofBtQnode, UInt64.reduceToNat] at h1 h2 h4
  omega

theorem WF.install {m : Mem} {orig len : UInt64} (hm : m.WF)
    (hlen : len.toNat + 129 < 2 ^ 64) (h : m.MallocOk (nodeSize len) orig) :
    (m.install (userOf orig) ⟨orig, nodeSize len, shiftOf orig⟩).WF := by
  have hnew := placed_userOf hlen h.no_wrap
  constructor
  · intro x b hx
    by_cases hxa : x = userOf orig
    · subst hxa
      simp only [Mem.install, Function.update_self, Option.some.injEq] at hx
      exact hx ▸ hnew
    · simp only [Mem.install, Function.update_of_ne hxa] at hx
      exact hm.placed x b hx
  · intro x x' b b' hx hx' hne
    -- the new block is apart from the old ones, on whichever side it stands
    by_cases hxa : x = userOf orig
    · have hxa' : x' ≠ userOf orig := fun h => hne (hxa.trans h.symm)
      subst hxa
      simp only [Mem.install, Function.update_self, Option.some.injEq,
        Function.update_of_ne hxa'] at hx hx'
      subst hx
      exact h.apart x' b' hx'
    · simp only [Mem.install, Function.update_of_ne hxa] at hx
      by_cases hxa' : x' = userOf orig
      · subst hxa'
        simp only [Mem.install, Function.update_self, Option.some.injEq] at hx'
        subst hx'
        exact (h.apart x b hx).symm
      · simp only [Mem.install, Function.update_of_ne hxa'] at hx'
        exact hm.apart x x' b b' hx hx' hne

end Mem

theorem run_btQnodeCreate {m : Mem} {orig len : UInt64} (hlen : len.toNat + 129 < 2 ^ 64)
    (h : m.MallocOk (nodeSize len) orig) :
    (btQnodeCreate (some orig) len).run m = .ok (some (userOf orig),
      ((m.install (userOf orig) ⟨orig, nodeSize len, shiftOf orig⟩).log
        (.alloc (userOf orig))).log (.write (userOf orig))) := by
  have hbyte := (placed_userOf hlen h.no_wrap).shiftByte
  simp only [btQnodeCreate, hbyte, ↓reduceIte]
  rfl

/-! ### Deleting a node -/

namespace Mem

/-- The memory after the node at `a` was read twice and freed. -/
def deleted (m : Mem) (a : Addr) : Mem :=
  (((m.log (.read a)).log (.read a)).release a).log (.free a)

variable (m : Mem) {a x : Addr}

theorem live_deleted : (m.deleted a).Live x ↔ x ≠ a ∧ m.Live x := by
  show (∃ b, Function.update m.blocks a none x = some b) ↔ _
  by_cases hx : x = a
  · simp [hx]
  · rw [Function.update_of_ne hx]
    exact ⟨fun h => ⟨hx, h⟩, And.right⟩

theorem allocated_deleted (a : Addr) : (m.deleted a).allocated = m.allocated := by
  rw [deleted, allocated_log]
  show ((m.log (.read a)).log (.read a)).allocated ++ _ = _
  simp [allocated_log, Event.alloced?]

theorem freed_deleted (a : Addr) : (m.deleted a).freed = m.freed ++ [a] := by
  rw [deleted, freed_log]
  show ((m.log (.read a)).log (.read a)).freed ++ _ = _
  simp [freed_log, Event.freed?]

variable {m}

theorem WF.release (hm : m.WF) (a : Addr) : (m.release a).WF := by
  have hold : ∀ x b, (m.release a).blocks x = some b → m.blocks x = some b := by
    intro x b hx
    by_cases hxa : x = a
    · subst hxa
      simp [Mem.release] at hx
    · simpa [Mem.release, hxa] using hx
  exact ⟨fun x b hx => hm.placed x b (hold x b hx),
    fun x x' b b' hx hx' hne => hm.apart x x' b b' (hold x b hx) (hold x' b' hx') hne⟩

theorem WF.deleted (hm : m.WF) (a : Addr) : (m.deleted a).WF :=
  ((hm.congr rfl).release a).congr rfl

end Mem

section Delete

variable {m : Mem} {a : Addr} (hm : m.WF) (ha : m.Live a)

include hm ha

theorem run_loadShift : ∃ b, m.blocks a = some b ∧
    (loadShift a).run m = .ok (b.shift, m.log (.read a)) := by
  obtain ⟨b, hb⟩ := ha
  refine ⟨b, hb, ?_⟩
  simp [loadShift, hb, (hm.placed a b hb).shiftByte]
  rfl

/-- Both delete functions end by freeing the block that starts `shift` bytes in front. -/
theorem run_btQnodeDeleteIgnoreRef : (btQnodeDeleteIgnoreRef a).run m =
    .ok ((), ((m.log (.read a)).release a).log (.free a)) := by
  obtain ⟨b, hb, hshift⟩ := run_loadShift hm ha
  rw [btQnodeDeleteIgnoreRef, run_bind_ok hshift, (hm.placed a b hb).sub_shift]
  simp [free, hb]
  rfl

/-- The reference check reads the node once more. -/
theorem run_btQnodeDelete (hnext : (m.link a).next = none) (hprev : (m.link a).prev = none) :
    (btQnodeDelete (some a)).run m = .ok ((), m.deleted a) := by
  have hn : ((m.node a).next.isSome || (m.node a).prev.isSome) = false := by
    have h1 : (m.node a).next = none := hnext
    have h2 : (m.node a).prev = none := hprev
    rw [h1, h2]
    rfl
  have hrest := run_btQnodeDeleteIgnoreRef ((looked_read m a).relinked.wf hm) ha
  rw [btQnodeDelete, run_bind_ok (run_load hm ha), hn]
  exact hrest

/-- A node with a link that is not null stops the program, before anything is written. -/
theorem run_btQnodeDelete_abort (hlink : m.link a ≠ ⟨none, none⟩) :
    (btQnodeDelete (some a)).run m = .error ⟨.abort .deleteReferenced, m.log (.read a)⟩ := by
  have hn : ((m.node a).next.isSome || (m.node a).prev.isSome) = true := by
    by_contra hnone
    apply hlink
    simp only [Bool.or_eq_true, not_or, Option.not_isSome_iff_eq_none] at hnone
    exact congrArg₂ Link.mk hnone.1 hnone.2
  rw [btQnodeDelete, run_bind_ok (run_load hm ha), hn]
  rfl

end Delete

end Bluetea.Queue
