import Bluetea.Encoding.Percent
import Mathlib.Algebra.Group.Nat.Defs

/-!
# Hexadecimal numbers of a fixed width

A number is written with a given count of lower-case digits, the leading zeros included.  What is
written is read back, modulo the power of 16 for which there is room (`readDigits_fixed`).
-/

namespace Encoding.Hex

open Percent (hexValue?)

/-- The lower-case hexadecimal digit of `n < 16`. -/
def digit (n : ℕ) : UInt8 := UInt8.ofNat (if n < 10 then 0x30 + n else 0x57 + n)

/-- The last `w` digits of `n`. -/
def fixed : ℕ → ℕ → List UInt8
  | 0, _ => []
  | w + 1, n => fixed w (n / 16) ++ [digit (n % 16)]

/-- Reads digits behind those that have been read as `acc`. -/
def readDigits (acc : ℕ) : List UInt8 → Option ℕ
  | [] => some acc
  | c :: cs => do
    let v ← hexValue? c
    readDigits (acc * 16 + v) cs

theorem hexValue?_digit {n : ℕ} (h : n < 16) : hexValue? (digit n) = some n := by
  have hall : ∀ n < 16, hexValue? (digit n) = some n := by decide
  exact hall n h

theorem digit_range {n : ℕ} (h : n < 16) : 48 ≤ (digit n).toNat ∧ (digit n).toNat ≤ 102 := by
  have hall : ∀ n < 16, 48 ≤ (digit n).toNat ∧ (digit n).toNat ≤ 102 := by decide
  exact hall n h

@[simp] theorem length_fixed (w n : ℕ) : (fixed w n).length = w := by
  induction w generalizing n with
  | zero => rfl
  | succ w ih => rw [fixed, List.length_append, ih, List.length_singleton]

theorem of_mem_fixed {w n : ℕ} {b : UInt8} (h : b ∈ fixed w n) : 48 ≤ b.toNat ∧ b.toNat ≤ 102 := by
  induction w generalizing n with
  | zero => cases h
  | succ w ih =>
    rcases List.mem_append.mp h with h | h
    · exact ih h
    · rw [List.mem_singleton.mp h]
      apply digit_range
      exact Nat.mod_lt _ (by decide)

theorem readDigits_append (acc : ℕ) (l l' : List UInt8) :
    readDigits acc (l ++ l') = (readDigits acc l).bind fun v => readDigits v l' := by
  induction l generalizing acc with
  | nil => rfl
  | cons c l ih =>
    rw [List.cons_append, readDigits, readDigits]
    cases hexValue? c with
    | none => rfl
    | some v => exact ih (acc * 16 + v)

theorem readDigits_fixed (acc w n : ℕ) :
    readDigits acc (fixed w n) = some (acc * 16 ^ w + n % 16 ^ w) := by
  induction w generalizing n with
  | zero => rw [fixed, readDigits, Nat.pow_zero, Nat.mul_one, Nat.mod_one, Nat.add_zero]
  | succ w ih =>
    rw [fixed, readDigits_append, ih, Option.bind_some, readDigits,
      hexValue?_digit (Nat.mod_lt _ (by decide)), Option.bind_eq_bind, Option.bind_some, readDigits]
    congr 1
    calc (acc * 16 ^ w + n / 16 % 16 ^ w) * 16 + n % 16
        = acc * (16 ^ w * 16) + (n % 16 + 16 * (n / 16 % 16 ^ w)) := by
          rw [Nat.add_mul, Nat.mul_assoc, Nat.add_assoc, Nat.mul_comm (n / 16 % 16 ^ w),
            Nat.add_comm (n % 16)]
      _ = acc * 16 ^ (w + 1) + n % 16 ^ (w + 1) := by
          rw [← Nat.mod_mul, Nat.pow_succ, Nat.mul_comm 16]

end Encoding.Hex
