import Mathlib.Algebra.Group.Nat.Defs
import Mathlib.Data.List.Basic

/-!
# Decimal numbers

A reader takes digits as long as there are any.  What has been written with `Nat.toDigits` is read back,
whatever other byte comes behind it (`readDigits_toDigits`).
-/

namespace Encoding.Decimal

def isDigit (c : UInt8) : Bool := 0x30 ≤ c && c ≤ 0x39

/-- Reads digits behind those that have been read as `acc`. -/
def readDigits (acc : ℕ) : List UInt8 → ℕ
  | [] => acc
  | c :: cs => if isDigit c then readDigits (10 * acc + (c.toNat - 0x30)) cs else acc

/-- The digits of a number as bytes. -/
def digits (n : ℕ) : List UInt8 := (Nat.toDigits 10 n).map Char.toUInt8

/-- A decimal digit as a byte. -/
theorem toNat_toUInt8 {c : Char} (h : c.isDigit = true) :
    c.toUInt8.toNat = c.toNat ∧ isDigit c.toUInt8 = true := by
  have hrange : 48 ≤ c.toNat ∧ c.toNat ≤ 57 := by
    simpa [Char.isDigit, UInt32.le_iff_toNat_le] using h
  have hval : c.toUInt8.toNat = c.toNat % 256 := UInt32.toNat_toUInt8 c.val
  rw [Nat.mod_eq_of_lt (by omega)] at hval
  refine ⟨hval, ?_⟩
  rw [isDigit, Bool.and_eq_true, decide_eq_true_eq, decide_eq_true_eq, UInt8.le_iff_toNat_le,
    UInt8.le_iff_toNat_le, hval]
  exact hrange

theorem isDigit_of_mem_digits {n : ℕ} {b : UInt8} (h : b ∈ digits n) : isDigit b = true := by
  obtain ⟨c, hc, rfl⟩ := List.mem_map.mp h
  exact (toNat_toUInt8 (Nat.isDigit_of_mem_toDigits (by decide) (by decide) hc)).2

theorem digits_ne_nil (n : ℕ) : digits n ≠ [] := by
  intro h
  exact Nat.toDigits_ne_nil (List.map_eq_nil_iff.mp h)

/-- The reader computes what the digits stand for. -/
theorem readDigits_map {cs : List Char} (hcs : ∀ c ∈ cs, c.isDigit = true) {rest : List UInt8}
    (hrest : ∀ b ∈ rest.head?, isDigit b = false) (acc : ℕ) :
    readDigits acc (cs.map Char.toUInt8 ++ rest) = Nat.ofDigitChars 10 cs acc := by
  induction cs generalizing acc with
  | nil =>
    rw [Nat.ofDigitChars_nil]
    cases rest with
    | nil => rfl
    | cons b rest =>
      show readDigits acc (b :: rest) = acc
      rw [readDigits, hrest b rfl]
      rfl
  | cons c cs ih =>
    obtain ⟨hval, hdigit⟩ := toNat_toUInt8 (hcs c (List.mem_cons_self ..))
    rw [List.map_cons, List.cons_append, readDigits, if_pos hdigit, hval,
      ih fun c' hc' => hcs c' (List.mem_cons_of_mem _ hc'), Nat.ofDigitChars_cons]
    rfl

/-- What has been written is read. -/
theorem readDigits_toDigits (n : ℕ) {rest : List UInt8}
    (hrest : ∀ b ∈ rest.head?, isDigit b = false) : readDigits 0 (digits n ++ rest) = n := by
  have hdigits : ∀ c ∈ Nat.toDigits 10 n, c.isDigit = true :=
    fun c hc => Nat.isDigit_of_mem_toDigits (by decide) (by decide) hc
  rw [digits, readDigits_map hdigits hrest, Nat.ofDigitChars_ten_toDigits]

end Encoding.Decimal
