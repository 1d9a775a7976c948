import Mathlib.Data.Nat.Bitwise
import Mathlib.Tactic.NormNum
import Mathlib.Tactic.TypeStar

/-!
# Memory

Clearing the low `k` bits of a 64-bit word rounds it down to a multiple of `2 ^ k`
(`toNat_and_not_mask`); adding `2 ^ k - 1` first rounds it up (`toNat_align_up`), as long as the
sum does not wrap.

Code with a memory that may fault is a `StateT σ (Except ε)`.  The bind rules run it one call at a
time, each by what is known about that call.

A ledger sets what was allocated and freed against what the program still owns.  When it balances,
nothing is lost: all that is live was live before or is owned (`Balanced.live_iff`).
-/

/-! ### Aligned addresses -/

namespace Machine

/-- Clearing the low `k` bits rounds down to a multiple of `2 ^ k`. -/
theorem toNat_and_not_mask (x mask : UInt64) (k : ℕ) (hmask : mask.toNat = 2 ^ k - 1) :
    (x &&& ~~~mask).toNat = x.toNat / 2 ^ k * 2 ^ k := by
  have hx := x.toNat_lt
  have hpos : 0 < 2 ^ k := Nat.two_pow_pos k
  apply Nat.eq_of_testBit_eq
  intro i
  have hnot : (~~~mask).toNat = 2 ^ 64 - (mask.toNat + 1) := by
    rw [UInt64.toNat_not, UInt64.size]
    omega
  rw [UInt64.toNat_and, Nat.testBit_and, hnot, Nat.testBit_two_pow_sub_succ mask.toNat_lt, hmask,
    Nat.testBit_two_pow_sub_one, ← Nat.shiftRight_eq_div_pow, ← Nat.shiftLeft_eq,
    Nat.testBit_shiftLeft, Nat.testBit_shiftRight]
  -- bits below `k` are cleared, those above 64 are not there
  by_cases hi : k ≤ i
  · by_cases hi64 : i < 64
    · simp [hi, hi64, Nat.not_lt.mpr hi]
    · have hbit : x.toNat.testBit i = false :=
        Nat.testBit_lt_two_pow (lt_of_lt_of_le hx (Nat.pow_le_pow_right (by norm_num) (by omega)))
      simp [hi, hbit]
  · simp [hi, Nat.not_le.mp hi]

/-- Rounding up: the result is the next multiple of `2 ^ k`, provided the sum does not wrap. -/
theorem toNat_align_up (x mask : UInt64) (k : ℕ) (hmask : mask.toNat = 2 ^ k - 1)
    (hx : x.toNat + (2 ^ k - 1) < 2 ^ 64) :
    ((x + mask) &&& ~~~mask).toNat = (x.toNat + (2 ^ k - 1)) / 2 ^ k * 2 ^ k := by
  rw [toNat_and_not_mask _ _ k hmask, UInt64.toNat_add, hmask, Nat.mod_eq_of_lt hx]

/-! ### Code that may fault -/

universe u

section Run

variable {σ α β : Type u} {ε : Type*} {x : StateT σ (Except ε) α} {f : α → StateT σ (Except ε) β}
  {s s' : σ}

theorem run_bind_ok {v : α} (h : x.run s = .ok (v, s')) : (x >>= f).run s = (f v).run s' := by
  rw [StateT.run_bind, h]
  rfl

theorem run_bind_error {e : ε} (h : x.run s = .error e) : (x >>= f).run s = .error e := by
  rw [StateT.run_bind, h]
  rfl

end Run

end Machine

/-! ### Ledgers -/

namespace Ledger

variable {α : Type*} {old live live' : α → Prop} {allocated freed owned owned' l : List α} {a : α}

/-- The blocks `old` were live before and `live` are live now.  Since then those of `allocated` were
handed out and those of `freed` given back, with repetitions; the program owns `owned`. -/
structure Balanced (old live : α → Prop) (allocated freed owned : List α) : Prop where
  live_iff : ∀ a, live a ↔ old a ∨ a ∈ owned
  not_old : ∀ a ∈ owned, ¬old a
  nodup : owned.Nodup
  perm : allocated.Perm (owned ++ freed)

theorem Balanced.init (old : α → Prop) : Balanced old old [] [] [] :=
  { live_iff := by simp
    not_old := by simp
    nodup := List.nodup_nil
    perm := List.Perm.refl _ }

theorem Balanced.live_of_owned (h : Balanced old live allocated freed owned) (ha : a ∈ owned) : live a :=
  (h.live_iff a).mpr (Or.inr ha)

/-- The order of what is owned does not matter. -/
theorem Balanced.perm_owned (h : Balanced old live allocated freed owned)
    (hp : owned.Perm owned') : Balanced old live allocated freed owned' :=
  { live_iff := fun a => by rw [h.live_iff, hp.mem_iff]
    not_old := fun a ha => h.not_old a (hp.mem_iff.mpr ha)
    nodup := hp.nodup_iff.mp h.nodup
    perm := h.perm.trans (hp.append_right freed) }

/-- A block that was not live becomes the program's. -/
theorem Balanced.alloc (h : Balanced old live allocated freed owned) (hfresh : ¬live a)
    (hlive : ∀ x, live' x ↔ x = a ∨ live x) :
    Balanced old live' (allocated ++ [a]) freed (a :: owned) := by
  have hold : ¬old a := fun ha => hfresh ((h.live_iff a).mpr (Or.inl ha))
  have hnew : a ∉ owned := fun ha => hfresh (h.live_of_owned ha)
  refine ⟨fun x => ?_, fun x hx => ?_, List.nodup_cons.mpr ⟨hnew, h.nodup⟩, ?_⟩
  · rw [hlive, h.live_iff, List.mem_cons]
    exact or_left_comm
  · rcases List.mem_cons.mp hx with rfl | hx
    · exact hold
    · exact h.not_old x hx
  · refine (List.perm_append_singleton a allocated).trans ?_
    exact h.perm.cons a

/-- Giving back some of what is owned, in this order. -/
theorem Balanced.free (h : Balanced old live allocated freed (l ++ owned))
    (hlive : ∀ x, live' x ↔ x ∉ l ∧ live x) :
    Balanced old live' allocated (freed ++ l) owned := by
  obtain ⟨-, hnodup, hdisj⟩ := List.nodup_append.mp h.nodup
  refine ⟨fun x => ?_, fun x hx => h.not_old x (List.mem_append_right _ hx), hnodup, ?_⟩
  · rw [hlive, h.live_iff, List.mem_append]
    constructor
    · rintro ⟨hx, hold | hl | ho⟩
      · exact Or.inl hold
      · exact absurd hl hx
      · exact Or.inr ho
    · -- what is freed was owned, so it is none of the old blocks
      rintro (hold | ho)
      · exact ⟨fun hl => h.not_old x (List.mem_append_left _ hl) hold, Or.inl hold⟩
      · exact ⟨fun hl => hdisj x hl x ho rfl, Or.inr (Or.inr ho)⟩
  · refine h.perm.trans ?_
    rw [List.append_assoc, ← List.append_assoc owned]
    exact List.perm_append_comm

/-- Giving back one block. -/
theorem Balanced.free_one [DecidableEq α] (h : Balanced old live allocated freed owned)
    (ha : a ∈ owned) (hlive : ∀ x, live' x ↔ x ≠ a ∧ live x) :
    Balanced old live' allocated (freed ++ [a]) (owned.erase a) := by
  have hfront : Balanced old live allocated freed ([a] ++ owned.erase a) :=
    h.perm_owned (List.perm_cons_erase ha)
  exact hfront.free fun x => by rw [hlive, List.mem_singleton]

end Ledger
