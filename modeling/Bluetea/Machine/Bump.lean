import Mathlib.Algebra.GroupWithZero.Nat
import Mathlib.Data.List.Basic

/-!
# Bump allocation

A bump allocator hands out blocks one behind the other: a request of `n` bytes takes `r n` bytes
from the end of what is used.  `Stacked r base blocks used` says that the blocks, latest first,
were handed out so from `base` on and take `used` bytes together.  The blocks then lie in the used
part, do not overlap and are aligned as well as `base` and the rounded sizes are.
-/

namespace Bump

variable {r : ℕ → ℕ} {base used : ℕ} {blocks : List (ℕ × ℕ)}

/-- The blocks, pairs of an address and a requested size, are stacked on `base`. -/
def Stacked (r : ℕ → ℕ) (base : ℕ) : List (ℕ × ℕ) → ℕ → Prop
  | [], used => used = 0
  | b :: blocks, used => ∃ u, Stacked r base blocks u ∧ b.1 = base + u ∧ used = u + r b.2

/-- The blocks with the bytes `[a, a + n)` and `[a', a' + n')` do not meet. -/
def Disjoint (b b' : ℕ × ℕ) : Prop := b.1 + b.2 ≤ b'.1 ∨ b'.1 + b'.2 ≤ b.1

/-- Handing out one more block. -/
theorem Stacked.push (h : Stacked r base blocks used) (n : ℕ) :
    Stacked r base ((base + used, n) :: blocks) (used + r n) :=
  ⟨used, h, rfl, rfl⟩

/-- What is used is the sum of the rounded requests. -/
theorem Stacked.sum_eq (h : Stacked r base blocks used) :
    (blocks.map fun b => r b.2).sum = used := by
  induction blocks generalizing used with
  | nil => exact h.symm
  | cons b blocks ih =>
    obtain ⟨u, hu, -, rfl⟩ := h
    rw [List.map_cons, List.sum_cons, ih hu, Nat.add_comm]

/-- Every block lies in the used part. -/
theorem Stacked.inside (h : Stacked r base blocks used) {b : ℕ × ℕ} (hb : b ∈ blocks) :
    base ≤ b.1 ∧ b.1 + r b.2 ≤ base + used := by
  induction blocks generalizing used with
  | nil => cases hb
  | cons c blocks ih =>
    obtain ⟨u, hu, haddr, rfl⟩ := h
    rcases List.mem_cons.mp hb with rfl | hb
    · omega
    · obtain ⟨hlo, hhi⟩ := ih hu hb
      omega

/-- No two blocks overlap. -/
theorem Stacked.pairwise (hr : ∀ n, n ≤ r n) (h : Stacked r base blocks used) :
    blocks.Pairwise Disjoint := by
  induction blocks generalizing used with
  | nil => exact List.Pairwise.nil
  | cons b blocks ih =>
    obtain ⟨u, hu, haddr, rfl⟩ := h
    refine List.pairwise_cons.mpr ⟨fun c hc => Or.inr ?_, ih hu⟩
    -- `c` is older and ends where `b` begins, or before
    obtain ⟨-, hhi⟩ := hu.inside hc
    have hle := hr c.2
    omega

/-- Blocks are aligned when the base and the rounded sizes are. -/
theorem Stacked.dvd {g : ℕ} (hbase : g ∣ base) (hr : ∀ n, g ∣ r n)
    (h : Stacked r base blocks used) : g ∣ used ∧ ∀ b ∈ blocks, g ∣ b.1 := by
  induction blocks generalizing used with
  | nil => exact ⟨by rw [show used = 0 from h]; exact Nat.dvd_zero g, by simp⟩
  | cons b blocks ih =>
    obtain ⟨u, hu, haddr, rfl⟩ := h
    obtain ⟨hused, hblocks⟩ := ih hu
    refine ⟨Nat.dvd_add hused (hr b.2), fun c hc => ?_⟩
    rcases List.mem_cons.mp hc with rfl | hc
    · rw [haddr]
      exact Nat.dvd_add hbase hused
    · exact hblocks c hc

end Bump
