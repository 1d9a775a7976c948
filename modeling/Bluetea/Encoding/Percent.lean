import Bluetea.Encoding.Unique
import Mathlib.Data.List.Basic

/-!
# Percent encoding

A byte is kept as it is or written as `%` and its two hexadecimal digits.  When `plus` is set, a
space is written as `+`.  The bytes that are kept are given by a predicate `keep`.  An encoded text
can be decoded if neither `%` is kept nor, when `plus` is set, `+` (`decode_flatMap_code`).
-/

namespace Encoding.Percent

/-- The upper-case hexadecimal digit of `n < 16`. -/
def hexDigit (n : ℕ) : UInt8 := UInt8.ofNat (if n < 10 then 0x30 + n else 0x37 + n)

/-- A hexadecimal digit with upper-case letters. -/
def isUpperHex (b : UInt8) : Bool :=
  ('0'.toUInt8 ≤ b && b ≤ '9'.toUInt8) || ('A'.toUInt8 ≤ b && b ≤ 'F'.toUInt8)

/-- The value of a hexadecimal digit. -/
def hexValue? (b : UInt8) : Option ℕ :=
  if '0'.toUInt8 ≤ b ∧ b ≤ '9'.toUInt8 then some (b.toNat - 0x30)
  else if 'A'.toUInt8 ≤ b ∧ b ≤ 'F'.toUInt8 then some (b.toNat - 0x37)
  else if 'a'.toUInt8 ≤ b ∧ b ≤ 'f'.toUInt8 then some (b.toNat - 0x57)
  else none

/-- The encoding of a byte that is not kept. -/
def escape (c : UInt8) : List UInt8 :=
  ['%'.toUInt8, hexDigit (c.toNat / 16), hexDigit (c.toNat % 16)]

def code (plus : Bool) (keep : UInt8 → Bool) (c : UInt8) : List UInt8 :=
  if plus && c == ' '.toUInt8 then ['+'.toUInt8] else if keep c then [c] else escape c

/-- Reads an encoded text; `none` if there is a `%` without two hexadecimal digits behind it. -/
def decode (plus : Bool) : List UInt8 → Option (List UInt8)
  | [] => some []
  | c :: cs =>
    if c = '%'.toUInt8 then
      match cs with
      | h :: l :: cs => do
        let h ← hexValue? h
        let l ← hexValue? l
        let text ← decode plus cs
        return UInt8.ofNat (h * 16 + l) :: text
      | _ => none
    else if plus && c == '+'.toUInt8 then (decode plus cs).map (' '.toUInt8 :: ·)
    else (decode plus cs).map (c :: ·)

variable {plus : Bool} {keep : UInt8 → Bool}

/-! ### Digits -/

theorem hexValue?_hexDigit {n : ℕ} (h : n < 16) : hexValue? (hexDigit n) = some n := by
  have hall : ∀ n < 16, hexValue? (hexDigit n) = some n := by decide
  exact hall n h

theorem isUpperHex_hexDigit {n : ℕ} (h : n < 16) : isUpperHex (hexDigit n) := by
  have hall : ∀ n < 16, isUpperHex (hexDigit n) := by decide
  exact hall n h

theorem high_lt (c : UInt8) : c.toNat / 16 < 16 := by
  have hlt := c.toNat_lt
  omega

theorem low_lt (c : UInt8) : c.toNat % 16 < 16 := Nat.mod_lt _ (by decide)

/-! ### Decoding -/

/-- The bytes kept are told from what stands for other bytes. -/
structure Decodable (plus : Bool) (keep : UInt8 → Bool) : Prop where
  percent : ¬keep '%'.toUInt8
  plus : plus → ¬keep '+'.toUInt8

theorem decode_escape_append (plus : Bool) (c : UInt8) (rest : List UInt8) :
    decode plus (escape c ++ rest) = (decode plus rest).map (c :: ·) := by
  show decode plus ('%'.toUInt8 :: hexDigit (c.toNat / 16) :: hexDigit (c.toNat % 16) :: rest) = _
  rw [decode, if_pos rfl]
  simp only [hexValue?_hexDigit (high_lt c), hexValue?_hexDigit (low_lt c), Option.bind_eq_bind,
    Option.bind_some, Nat.div_add_mod', UInt8.ofNat_toNat]
  cases decode plus rest <;> rfl

theorem decode_cons_of_ne {c : UInt8} (hc : c ≠ '%'.toUInt8) (rest : List UInt8) :
    decode plus (c :: rest) = (decode plus rest).map
      ((if plus && c == '+'.toUInt8 then ' '.toUInt8 else c) :: ·) := by
  conv_lhs => unfold decode
  rw [if_neg hc]
  split_ifs <;> rfl

theorem decode_code_append (h : Decodable plus keep) (c : UInt8) (rest : List UInt8) :
    decode plus (code plus keep c ++ rest) = (decode plus rest).map (c :: ·) := by
  unfold code
  by_cases hspace : plus && c == ' '.toUInt8
  · rw [if_pos hspace]
    obtain ⟨hplus, hc⟩ := Bool.and_eq_true_iff.mp hspace
    show decode plus ('+'.toUInt8 :: rest) = _
    rw [decode_cons_of_ne (by decide), eq_of_beq hc, hplus]
    rfl
  · rw [if_neg hspace]
    by_cases hkeep : keep c
    · rw [if_pos hkeep]
      have hpercent : c ≠ '%'.toUInt8 := fun heq => h.percent (heq ▸ hkeep)
      have hplus : ¬(plus && c == '+'.toUInt8) := by
        intro hand
        obtain ⟨hp, hc⟩ := Bool.and_eq_true_iff.mp hand
        -- a byte that is kept is neither `%` nor, where it means a space, `+`
        exact h.plus hp (eq_of_beq hc ▸ hkeep)
      show decode plus (c :: rest) = _
      rw [decode_cons_of_ne hpercent, if_neg hplus]
    · rw [if_neg hkeep]
      exact decode_escape_append ..

/-- Decoding gives back what has been encoded. -/
theorem decode_flatMap_code (h : Decodable plus keep) (s : List UInt8) :
    decode plus (s.flatMap (code plus keep)) = some s := by
  induction s with
  | nil => rfl
  | cons c s ih =>
    rw [List.flatMap_cons, decode_code_append h, ih]
    rfl

/-! ### The encoded text -/

theorem length_code_le (plus : Bool) (keep : UInt8 → Bool) (c : UInt8) :
    (code plus keep c).length ≤ 3 := by
  unfold code
  split_ifs
  · exact Nat.le_add_left 1 2
  · exact Nat.le_add_left 1 2
  · exact Nat.le_refl 3

theorem length_flatMap_code_le (plus : Bool) (keep : UInt8 → Bool) (s : List UInt8) :
    (s.flatMap (code plus keep)).length ≤ 3 * s.length := by
  induction s with
  | nil => exact Nat.le_refl 0
  | cons c s ih =>
    have hc := length_code_le plus keep c
    rw [List.flatMap_cons, List.length_append, List.length_cons]
    omega

/-- The letters of an encoded text. -/
theorem mem_flatMap_code {s : List UInt8} {b : UInt8} (hb : b ∈ s.flatMap (code plus keep)) :
    keep b ∨ isUpperHex b ∨ b = '%'.toUInt8 ∨ plus ∧ b = '+'.toUInt8 := by
  obtain ⟨c, -, hbc⟩ := List.mem_flatMap.mp hb
  unfold code at hbc
  by_cases hspace : plus && c == ' '.toUInt8
  · rw [if_pos hspace] at hbc
    exact Or.inr (Or.inr (Or.inr
      ⟨(Bool.and_eq_true_iff.mp hspace).1, List.mem_singleton.mp hbc⟩))
  · rw [if_neg hspace] at hbc
    by_cases hkeep : keep c
    · rw [if_pos hkeep] at hbc
      exact Or.inl (List.mem_singleton.mp hbc ▸ hkeep)
    · rw [if_neg hkeep] at hbc
      simp only [escape, List.mem_cons, List.not_mem_nil, or_false] at hbc
      rcases hbc with rfl | rfl | rfl
      · exact Or.inr (Or.inr (Or.inl rfl))
      · exact Or.inr (Or.inl (isUpperHex_hexDigit (high_lt c)))
      · exact Or.inr (Or.inl (isUpperHex_hexDigit (low_lt c)))

/-- A `%` in a word is the first letter of an escape. -/
theorem drop_code_of_percent (h : Decodable plus keep) {c : UInt8} {j : ℕ}
    (hj : (code plus keep c)[j]? = some '%'.toUInt8) : (code plus keep c).drop j = escape c := by
  unfold code at hj ⊢
  by_cases hspace : plus && c == ' '.toUInt8
  · rw [if_pos hspace] at hj
    exact absurd (List.mem_singleton.mp (List.mem_of_getElem? hj)) (by decide)
  · rw [if_neg hspace] at hj ⊢
    by_cases hkeep : keep c
    · rw [if_pos hkeep] at hj
      exact absurd (List.mem_singleton.mp (List.mem_of_getElem? hj) ▸ hkeep) h.percent
    · rw [if_neg hkeep] at hj ⊢
      -- a digit is no `%`, so it can only be the one in front of the digits
      have hne : ∀ n < 16, some (hexDigit n) ≠ some '%'.toUInt8 := by decide
      rcases j with _ | _ | _ | j
      · rfl
      · exact absurd hj (hne _ (high_lt c))
      · exact absurd hj (hne _ (low_lt c))
      · have hnone : (escape c)[j + 3]? = none := rfl
        cases hnone.symm.trans hj

/-- Behind each `%` of an encoded text there are two upper-case hexadecimal digits. -/
theorem percent_followed (h : Decodable plus keep) {s : List UInt8} {i : ℕ}
    (hi : (s.flatMap (code plus keep))[i]? = some '%'.toUInt8) :
    ∃ x y, (s.flatMap (code plus keep))[i + 1]? = some x ∧ isUpperHex x ∧
      (s.flatMap (code plus keep))[i + 2]? = some y ∧ isUpperHex y := by
  obtain ⟨hlt, -⟩ := List.getElem?_eq_some_iff.mp hi
  obtain ⟨c, -, j, post, hj, hdrop⟩ := drop_flatMap hlt
  have hget : ∀ k, (s.flatMap (code plus keep))[i + k]?
      = ((code plus keep c).drop j ++ post)[k]? := by
    intro k
    rw [← hdrop, List.getElem?_drop]
  have hpercent : (code plus keep c)[j]? = some '%'.toUInt8 := by
    have h0 := hget 0
    rw [Nat.add_zero, hi, List.getElem?_append_left, List.getElem?_drop] at h0
    · exact h0.symm
    · rw [List.length_drop]
      omega
  rw [hget, hget, drop_code_of_percent h hpercent]
  exact ⟨_, _, rfl, isUpperHex_hexDigit (high_lt c), rfl, isUpperHex_hexDigit (low_lt c)⟩

end Encoding.Percent
