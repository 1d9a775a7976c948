import Bluetea.CString.Basic
import Bluetea.Encoding.Decimal

/-!
# Numbers in C strings

`atoi` as glibc has it: `strtol` with base 10, cast to `int`.
-/

namespace CStr

open Encoding.Decimal

/-- `isspace`, in the C locale. -/
def isspace (c : UInt8) : Bool := c == 0x20 || (0x09 ≤ c && c ≤ 0x0d)

/-- The number behind the blanks, with its sign. -/
def signed : List UInt8 → Int
  | [] => 0
  | c :: cs =>
    if c = '-'.toUInt8 then -(readDigits 0 cs : Int)
    else if c = '+'.toUInt8 then readDigits 0 cs
    else readDigits 0 (c :: cs)

/-- `LONG_MAX` -/
def longMax : Int := 0x7fffffffffffffff

/-- `strtol(s, NULL, 10)`: a number that is not a `long` gives the nearest one that is. -/
def strtol (s : List UInt8) : Int :=
  max (-longMax - 1) (min (signed (s.dropWhile isspace)) longMax)

def atoi (s : List UInt8) : Int := (strtol s).bmod (2 ^ 32)

/-- A digit is neither a blank nor a sign. -/
theorem isDigit_spec {c : UInt8} (h : isDigit c = true) :
    isspace c = false ∧ c ≠ '-'.toUInt8 ∧ c ≠ '+'.toUInt8 := by
  have hrange : 48 ≤ c.toNat ∧ c.toNat ≤ 57 := by
    simpa [isDigit, UInt8.le_iff_toNat_le] using h
  refine ⟨?_, ?_, ?_⟩
  · have hblank : c ≠ 0x20 := by
      rintro rfl
      exact absurd hrange (by decide)
    have hhigh : ¬c ≤ 0x0d := by
      rw [UInt8.le_iff_toNat_le]
      show ¬c.toNat ≤ 13
      omega
    simp [isspace, hblank, hhigh]
  · rintro rfl
    exact absurd hrange (by decide)
  · rintro rfl
    exact absurd hrange (by decide)

/-- What `%d` has printed is read by `atoi`. -/
theorem atoi_digits {n : ℕ} (h : n < 2 ^ 31) : atoi (digits n) = n := by
  have hread : readDigits 0 (digits n) = n := by
    have hend : ∀ b ∈ ([] : List UInt8).head?, isDigit b = false := by
      intro b hb
      cases hb
    have happ := readDigits_toDigits n hend
    rwa [List.append_nil] at happ
  have hsigned : signed ((digits n).dropWhile isspace) = n := by
    cases hd : digits n with
    | nil => exact absurd hd (digits_ne_nil n)
    | cons c cs =>
      obtain ⟨hspace, hminus, hplus⟩ :=
        isDigit_spec (isDigit_of_mem_digits (n := n) (hd ▸ List.mem_cons_self ..))
      rw [List.dropWhile_cons_of_neg (by rw [hspace]; exact Bool.false_ne_true), signed,
        if_neg hminus, if_neg hplus, ← hd, hread]
  rw [atoi, strtol, hsigned]
  have hclamp : max (-longMax - 1) (min (n : Int) longMax) = n := by
    unfold longMax
    omega
  rw [hclamp, Int.bmod_eq_of_le]
  · omega
  · omega

end CStr
