import Mathlib.Data.List.Basic
import Mathlib.Tactic.TypeStar

/-!
# Encoding into bounded room

A `code` replaces each letter by a word, and a text is encoded letter by letter.  When there is
room for `room` letters only, the encoder stops in front of the first word that does not fit.
What it has encoded then is the longest prefix of the text that fits (`fitting_longest`).
-/

namespace Encoding

variable {α β : Type*} (code : α → List β)

/-- The text that is encoded when there is room for `room` letters. -/
def fitting (room : ℕ) : List α → List α
  | [] => []
  | x :: xs =>
    if (code x).length ≤ room then x :: fitting (room - (code x).length) xs else []

/-- `p` is the longest prefix of `xs` whose encoding has at most `room` letters. -/
structure Longest (room : ℕ) (xs p : List α) : Prop where
  le : p <+: xs
  fits : (p.flatMap code).length ≤ room
  max : ∀ q, q <+: xs → (q.flatMap code).length ≤ room → q <+: p

theorem Longest.unique {code : α → List β} {room : ℕ} {xs p q : List α}
    (hp : Longest code room xs p) (hq : Longest code room xs q) : p = q :=
  (hq.max p hp.le hp.fits).eq_of_length_le (hp.max q hq.le hq.fits).length_le

/-- A text that leaves room is the longest one for less room too. -/
theorem Longest.mono {code : α → List β} {room room' : ℕ} {xs p : List α}
    (hp : Longest code room xs p) (hle : room' ≤ room) (hfits : (p.flatMap code).length ≤ room') :
    Longest code room' xs p :=
  ⟨hp.le, hfits, fun q hq hroom => hp.max q hq (Nat.le_trans hroom hle)⟩

/-- With less room, less of the same text fits, up to a word for which there is no room. -/
theorem Longest.eq_or_exists_next {code : α → List β} {room room' : ℕ} {xs p q : List α}
    (hp : Longest code room' xs p) (hq : Longest code room xs q) (hle : room' ≤ room) :
    p = q ∨ ∃ x t, q = p ++ x :: t ∧ room' < (p.flatMap code).length + (code x).length := by
  obtain ⟨u, hu⟩ := hq.max p hp.le (Nat.le_trans hp.fits hle)
  cases u with
  | nil => exact Or.inl (by rw [← hu, List.append_nil])
  | cons x t =>
    refine Or.inr ⟨x, t, hu.symm, ?_⟩
    -- with room for `x`, the longer prefix would have been the longest
    by_contra hfits
    have hmore : p ++ [x] <+: p := by
      apply hp.max
      · refine List.IsPrefix.trans ⟨t, ?_⟩ hq.le
        rw [← hu, List.append_assoc]
        rfl
      · rw [List.flatMap_append, List.length_append, List.flatMap_singleton]
        exact Nat.le_of_not_lt hfits
    have hlen := hmore.length_le
    rw [List.length_append] at hlen
    exact Nat.not_succ_le_self _ hlen

theorem fitting_longest (room : ℕ) (xs : List α) :
    Longest code room xs (fitting code room xs) := by
  induction xs generalizing room with
  | nil => exact ⟨List.nil_prefix, Nat.zero_le room, fun q hq _ => hq⟩
  | cons x xs ih =>
    rw [fitting]
    by_cases hx : (code x).length ≤ room
    · rw [if_pos hx]
      obtain ⟨hle, hfits, hmax⟩ := ih (room - (code x).length)
      refine ⟨List.cons_prefix_cons.mpr ⟨rfl, hle⟩, ?_, ?_⟩
      · rw [List.flatMap_cons, List.length_append]
        omega
      · intro q hq hroom
        cases q with
        | nil => exact List.nil_prefix
        | cons y q =>
          obtain ⟨rfl, htail⟩ := List.cons_prefix_cons.mp hq
          rw [List.flatMap_cons, List.length_append] at hroom
          exact List.cons_prefix_cons.mpr ⟨rfl, hmax q htail (by omega)⟩
    · -- no prefix with a letter in it fits
      rw [if_neg hx]
      refine ⟨List.nil_prefix, Nat.zero_le room, fun q hq hroom => ?_⟩
      cases q with
      | nil => exact List.nil_prefix
      | cons y q =>
        obtain ⟨rfl, -⟩ := List.cons_prefix_cons.mp hq
        rw [List.flatMap_cons, List.length_append] at hroom
        omega

end Encoding
