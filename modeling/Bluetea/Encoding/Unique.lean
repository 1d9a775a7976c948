import Mathlib.Data.List.Basic
import Mathlib.Logic.Function.Basic

/-!
# Reading an encoded text back

When no word of a `code` is a prefix of another one, the first word of an encoded text is known
from the text, and so is what is behind it (`PrefixFree.append_inj`).  A text can then be read
back from its encoding (`PrefixFree.flatMap_injective`).

Any place in an encoded text lies in one word (`drop_flatMap`).
-/

namespace Encoding

variable {α β : Type*} {code : α → List β}

/-- No word is empty, and none is a prefix of the word of another letter. -/
structure PrefixFree (code : α → List β) : Prop where
  ne_nil : ∀ x, code x ≠ []
  eq_of_prefix : ∀ x y, code x <+: code y → x = y

/-- A word can be split off the front of a text in one way only. -/
theorem PrefixFree.append_inj (h : PrefixFree code) {x y : α} {s t : List β}
    (heq : code x ++ s = code y ++ t) : x = y ∧ s = t := by
  have hx : code x <+: code y ++ t := ⟨s, heq⟩
  have hxy : x = y := by
    -- both words are prefixes of the text, so one of them is a prefix of the other
    rcases List.prefix_or_prefix_of_prefix hx (List.prefix_append ..) with hpre | hpre
    · exact h.eq_of_prefix x y hpre
    · exact (h.eq_of_prefix y x hpre).symm
  subst hxy
  exact ⟨rfl, List.append_cancel_left heq⟩

/-- Texts with the same encoding are the same. -/
theorem PrefixFree.flatMap_injective (h : PrefixFree code) :
    Function.Injective fun xs : List α => xs.flatMap code := by
  intro xs
  induction xs with
  | nil =>
    intro ys heq
    cases ys with
    | nil => rfl
    | cons y ys =>
      have hnil : code y ++ ys.flatMap code = [] := heq.symm
      exact absurd (List.append_eq_nil_iff.mp hnil).1 (h.ne_nil y)
  | cons x xs ih =>
    intro ys heq
    cases ys with
    | nil =>
      have hnil : code x ++ xs.flatMap code = [] := heq
      exact absurd (List.append_eq_nil_iff.mp hnil).1 (h.ne_nil x)
    | cons y ys =>
      -- equal texts start with the same word, and the rest is equal as well
      obtain ⟨rfl, htail⟩ := h.append_inj (show code x ++ xs.flatMap code = _ from heq)
      rw [ih htail]

/-- What an encoded text holds from a place on: the rest of a word, and the words behind it. -/
theorem drop_flatMap {xs : List α} {i : ℕ} (hi : i < (xs.flatMap code).length) :
    ∃ x ∈ xs, ∃ j post, j < (code x).length ∧
      (xs.flatMap code).drop i = (code x).drop j ++ post := by
  induction xs generalizing i with
  | nil => exact absurd hi (Nat.not_lt_zero i)
  | cons x xs ih =>
    rw [List.flatMap_cons] at hi ⊢
    by_cases hx : i < (code x).length
    · refine ⟨x, List.mem_cons_self .., i, xs.flatMap code, hx, ?_⟩
      rw [List.drop_append_of_le_length (Nat.le_of_lt hx)]
    · rw [List.length_append] at hi
      obtain ⟨y, hy, j, post, hj, hdrop⟩ := ih (i := i - (code x).length) (by omega)
      refine ⟨y, List.mem_cons_of_mem _ hy, j, post, hj, ?_⟩
      rw [List.drop_append, List.drop_eq_nil_of_le (by omega), List.nil_append]
      exact hdrop

end Encoding
