import Bluetea.OldString.Equiv.Trim
import Bluetea.Strtrim.Equiv.Exact
import Bluetea.Trimming.Basic

/-!
# The old and the new trimmer

`trim` of the old library trims four bytes, `strtrim` of the new one the six bytes of `isspace`.  So
`strtrim` does not see whether `trim` was there before, and the two leave the same string exactly if
what `trim` leaves has neither a tab nor a form feed at its ends.
-/

namespace Bluetea.OldString

open Strtrim (isWs strtrim strtrimMove)
open Trimming

theorem isWs_of_isTrimmed {c : UInt8} (h : isTrimmed c) : isWs c := by
  simp only [isTrimmed, Bool.or_eq_true, beq_iff_eq] at h
  rcases h with ((rfl | rfl) | rfl) | rfl <;> decide

/-- What only `strtrim` takes for whitespace. -/
theorem isWs_iff {c : UInt8} : isWs c ↔ isTrimmed c ∨ c = '\t'.toUInt8 ∨ c = 0x0c := by
  constructor
  · intro h
    simp only [isWs, Bool.or_eq_true, beq_iff_eq, Bool.and_eq_true, decide_eq_true_eq,
      UInt8.le_iff_toNat_le] at h
    change c = 0x20 ∨ 9 ≤ c.toNat ∧ c.toNat ≤ 13 at h
    have hcases : c.toNat = 32 ∨ c.toNat = 9 ∨ c.toNat = 10 ∨ c.toNat = 11 ∨ c.toNat = 12 ∨
        c.toNat = 13 := by
      rcases h with rfl | h
      · exact Or.inl rfl
      · omega
    obtain ⟨n, rfl⟩ : ∃ n, c = UInt8.ofNat n := ⟨c.toNat, (UInt8.ofNat_toNat).symm⟩
    -- the six bytes that `isspace` takes
    rcases hcases with h | h | h | h | h | h <;>
      · rw [← UInt8.ofNat_toNat (x := UInt8.ofNat n), h]
        decide
  · rintro (h | rfl | rfl)
    · exact isWs_of_isTrimmed h
    · decide
    · decide

/-- What `strtrim` leaves. -/
def wsCoreStr (t : CStr) : CStr where
  bytes := core isWs t.bytes
  ne_zero x hx := t.ne_zero x (mem_of_mem_core hx)

/-- A call of `strtrim`, wherever the string is. -/
theorem exists_strtrim {t : CStr} {buf : List UInt8} {str : ℕ} (ht : t.At buf str)
    (hlt : t.strlen < UInt64.size) :
    ∃ ret buf', strtrim buf str = .ok (ret, buf') ∧ (wsCoreStr t).At buf' ret := by
  obtain ⟨pre, post, rfl, rfl⟩ := ht.exists_append
  have hlen : t.bytes.length = (UInt64.ofNat t.strlen).toNat :=
    (UInt64.toNat_ofNat_of_lt' hlt).symm
  refine ⟨_, _, ?_, Strtrim.at_strtriml rfl pre post 0⟩
  rw [Strtrim.strtrim_eq hlen t.ne_zero]
  exact Strtrim.strtriml_eq (Or.inr (Or.inl rfl)) hlen pre post

/-- `strtrim_move` leaves the same string, where the string was. -/
theorem exists_strtrimMove {t : CStr} {buf : List UInt8} {str : ℕ} (ht : t.At buf str)
    (hlt : t.strlen < UInt64.size) :
    ∃ buf', strtrimMove buf str = .ok (str, buf') ∧ (wsCoreStr t).At buf' str := by
  obtain ⟨pre, post, rfl, rfl⟩ := ht.exists_append
  have hlen : t.bytes.length = (UInt64.ofNat t.strlen).toNat :=
    (UInt64.toNat_ofNat_of_lt' hlt).symm
  refine ⟨_, ?_, Strtrim.at_strtrimlMove rfl pre (t.bytes ++ 0 :: post)⟩
  rw [Strtrim.strtrimMove_eq hlen t.ne_zero]
  exact Strtrim.strtrimlMove_eq (Or.inr (Or.inl rfl)) hlen pre post

theorem exists_trim {t : CStr} {buf : List UInt8} {str : ℕ} (ht : t.At buf str)
    (hlt : t.strlen < UInt64.size) :
    ∃ ret buf', trim buf str = .ok (ret, buf') ∧ (coreStr t).At buf' ret := by
  obtain ⟨pre, post, rfl, rfl⟩ := ht.exists_append
  exact ⟨_, _, trim_eq hlt pre post, (at_left_iff pre post).mpr rfl⟩

theorem wsCoreStr_coreStr (t : CStr) : wsCoreStr (coreStr t) = wsCoreStr t :=
  CStr.bytes_injective (core_core_of_imp (fun _ => isWs_of_isTrimmed) t.bytes)

theorem strlen_coreStr_le (t : CStr) : (coreStr t).strlen ≤ t.strlen := by
  have hlength := length_eq isTrimmed t.bytes
  show (core isTrimmed t.bytes).length ≤ t.bytes.length
  omega

/-- **The old and the new trimmer.** -/
theorem trim_strtrim {t : CStr} {buf : List UInt8} {str : ℕ} (ht : t.At buf str)
    (hlt : t.strlen < UInt64.size) :
    ∃ (s s' : CStr) (ret ret' : ℕ) (buf₁ buf₂ : List UInt8),
      trim buf str = .ok (ret, buf₁) ∧ s.At buf₁ ret ∧
      strtrim buf str = .ok (ret', buf₂) ∧ s'.At buf₂ ret' ∧
      (∃ buf₃, strtrimMove buf str = .ok (str, buf₃) ∧ s'.At buf₃ str) ∧
      (∃ ret₃ buf₃, strtrim buf₁ ret = .ok (ret₃, buf₃) ∧ s'.At buf₃ ret₃) ∧
      (s = s' ↔ ∀ c, s.bytes.head? = some c ∨ s.bytes.getLast? = some c →
        c ≠ '\t'.toUInt8 ∧ c ≠ 0x0c) := by
  obtain ⟨ret, buf₁, htrim, hs⟩ := exists_trim ht hlt
  obtain ⟨ret', buf₂, hstrtrim, hs'⟩ := exists_strtrim ht hlt
  have hagain := exists_strtrim hs (Nat.lt_of_le_of_lt (strlen_coreStr_le t) hlt)
  rw [wsCoreStr_coreStr] at hagain
  refine ⟨coreStr t, wsCoreStr t, ret, ret', buf₁, buf₂, htrim, hs, hstrtrim, hs',
    exists_strtrimMove ht hlt, hagain, ?_⟩
  -- `trim` leaves tabs and form feeds, so what matters is whether one stands at an end of its result
  have heq : coreStr t = wsCoreStr t ↔ core isWs (coreStr t).bytes = (coreStr t).bytes := by
    rw [← wsCoreStr_coreStr]
    exact ⟨fun h => (congrArg CStr.bytes h).symm, fun h => CStr.bytes_injective h.symm⟩
  have hends : ∀ c, (coreStr t).bytes.head? = some c ∨ (coreStr t).bytes.getLast? = some c →
      (¬isWs c ↔ c ≠ '\t'.toUInt8 ∧ c ≠ 0x0c) := by
    intro c hc
    have hnot : ¬isTrimmed c := hc.elim head?_core getLast?_core
    rw [isWs_iff, or_iff_right hnot, not_or]
  rw [heq, core_eq_self_iff]
  constructor
  · rintro ⟨hhead, hlast⟩ c hc
    exact (hends c hc).mp (hc.elim (hhead c) (hlast c))
  · intro h
    exact ⟨fun c hc => (hends c (Or.inl hc)).mpr (h c (Or.inl hc)),
      fun c hc => (hends c (Or.inr hc)).mpr (h c (Or.inr hc))⟩

/-- `" \ta"` -/
theorem trim_strtrim_tab :
    ∃ (s s' : CStr) (ret ret' : ℕ) (buf₁ buf₂ : List UInt8),
      trim [0x20, 0x09, 0x61, 0] 0 = .ok (ret, buf₁) ∧ s.At buf₁ ret ∧
      strtrim [0x20, 0x09, 0x61, 0] 0 = .ok (ret', buf₂) ∧ s'.At buf₂ ret' ∧
      (∃ buf₃, strtrimMove [0x20, 0x09, 0x61, 0] 0 = .ok (0, buf₃) ∧ s'.At buf₃ 0) ∧
      (∃ ret₃ buf₃, strtrim buf₁ ret = .ok (ret₃, buf₃) ∧ s'.At buf₃ ret₃) ∧
      (s = s' ↔ ∀ c, s.bytes.head? = some c ∨ s.bytes.getLast? = some c →
        c ≠ '\t'.toUInt8 ∧ c ≠ 0x0c) :=
  trim_strtrim (t := ⟨[0x20, 0x09, 0x61], CStr.ne_zero_of_all rfl⟩) ⟨[], rfl⟩ (by decide)

end Bluetea.OldString
