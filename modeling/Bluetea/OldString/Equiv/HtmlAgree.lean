import Bluetea.Html.Equiv.Escape
import Bluetea.OldString.Equiv.Html

/-!
# The old and the new escaper

The new escaper also replaces the apostrophe.  With room for everything, what it writes is what the
old one writes with each apostrophe replaced, and the old one counts the terminator and a byte in
front of it that it does not write.
-/

namespace Bluetea.OldString

open Buffer Encoding

variable {s output buf : List UInt8} {outlen inlen : UInt64}

/-- What the new escaper makes of a byte that the old one has written. -/
def escApos (c : UInt8) : List UInt8 :=
  if c = '\''.toUInt8 then ['&', '#', '0', '3', '9', ';'].map Char.toUInt8 else [c]

/-- No entity of the old escaper has an apostrophe in it. -/
theorem flatMap_escApos_esc (c : UInt8) : (esc c).flatMap escApos = Html.esc c := by
  unfold esc Html.esc
  split_ifs with hlt hgt hquot hamp hapos hapos
  · decide
  · decide
  · decide
  · rw [hamp] at hapos
    exact absurd hapos (by decide)
  · decide
  · rw [List.flatMap_singleton, escApos, if_pos hapos]
  · rw [List.flatMap_singleton, escApos, if_neg hapos]

theorem flatMap_escApos (s : List UInt8) : (s.flatMap esc).flatMap escApos = s.flatMap Html.esc := by
  rw [List.flatMap_assoc]
  exact List.flatMap_congr fun c _ => flatMap_escApos_esc c

theorem length_esc_add (c : UInt8) :
    (Html.esc c).length = (esc c).length + 5 * [c].count '\''.toUInt8 := by
  unfold esc Html.esc
  split_ifs with hlt hgt hquot hapos hamp hamp
  · rw [hlt]; decide
  · rw [hgt]; decide
  · rw [hquot]; decide
  · rw [hapos] at hamp
    exact absurd hamp (by decide)
  · rw [hapos]; decide
  · rw [hamp]; decide
  · rw [List.count_singleton, if_neg (fun h => hapos (beq_iff_eq.mp h))]
    rfl

/-- Each apostrophe takes five bytes more. -/
theorem length_flatMap_esc (s : List UInt8) :
    (s.flatMap Html.esc).length = (s.flatMap esc).length + 5 * s.count '\''.toUInt8 := by
  induction s with
  | nil => rfl
  | cons c s ih =>
    have hcount : ([c] ++ s).count '\''.toUInt8 = [c].count '\''.toUInt8 + s.count '\''.toUInt8 :=
      List.count_append
    rw [List.singleton_append] at hcount
    rw [List.flatMap_cons, List.flatMap_cons, List.length_append, List.length_append, ih,
      length_esc_add, hcount]
    omega

/-- A text that fits is encoded whole. -/
theorem fitting_eq_self {code : UInt8 → List UInt8} {room : ℕ} (h : (s.flatMap code).length ≤ room) :
    fitting code room s = s := by
  have hlongest := fitting_longest code room s
  exact hlongest.le.eq_of_length_le (hlongest.max s (List.prefix_refl s) h).length_le

/-- The new escaper, with room for everything; an empty input leaves the buffer as it is. -/
theorem htmlspecialcharsl_whole (hlen : s.length = inlen.toNat)
    (hroom : (s.flatMap Html.esc).length + 1 ≤ outlen.toNat) (hbuf : outlen.toNat ≤ buf.length)
    (post : List UInt8) :
    ∃ (ret : UInt64) (buf' : List UInt8),
      Html.htmlspecialcharsl buf outlen (s ++ post) inlen = .ok (ret, buf') ∧
      buf'.take ret.toNat = s.flatMap Html.esc ∧ ret.toNat = (s.flatMap Html.esc).length := by
  by_cases hin : 1 ≤ inlen.toNat
  · have hinp : inlen.toNat ≤ (s ++ post).length := by
      rw [List.length_append]
      omega
    have hnew := Html.htmlspecialcharsl_eq (by omega) hbuf hin hinp
    rw [← hlen, List.take_left, fitting_eq_self (by omega)] at hnew
    have hfits : (s.flatMap Html.esc).length ≤ outlen.toNat - 1 := by omega
    have hret := Html.toNat_ofNat_length hfits
    refine ⟨_, _, hnew, ?_, hret⟩
    rw [hret, Html.take_overwrite_text]
  · -- an input of length 0 takes the early return, and nothing is what it had to write
    obtain rfl : s = [] := List.length_eq_zero_iff.mp (by omega)
    obtain rfl : inlen = 0 := UInt64.toNat_inj.mp (by rw [UInt64.toNat_zero]; omega)
    exact ⟨0, buf, if_pos (Or.inr rfl), rfl, rfl⟩

/-- **The old and the new escaper**, with room for everything. -/
theorem htmlspecialchars_upgrade (hlen : s.length = inlen.toNat)
    (hroom : (s.flatMap Html.esc).length + 2 ≤ outlen.toNat)
    (hout : outlen.toNat ≤ output.length) (hbuf : outlen.toNat ≤ buf.length)
    (post : List UInt8) :
    ∃ (ret ret' : UInt64) (output' buf' : List UInt8),
      htmlspecialchars output outlen (s ++ post) inlen = .ok (ret, output') ∧
      Html.htmlspecialcharsl buf outlen (s ++ post) inlen = .ok (ret', buf') ∧
      buf'.take ret'.toNat = (output'.take (ret.toNat - 1)).flatMap escApos ∧
      ret'.toNat + 1 = ret.toNat + 5 * s.count '\''.toUInt8 := by
  have hlength := length_flatMap_esc s
  -- with two bytes of room behind the whole text, nothing is cut off and no sum wraps
  have hold : written outlen [] s = s := fitting_eq_self (by rw [List.length_nil]; omega)
  have hwrap : NoWrap outlen [] s := by
    intro c hc
    rw [hold, List.getElem?_eq_none (Nat.le_refl _)] at hc
    cases hc
  obtain ⟨ret, hwithin, hret⟩ := exists_within (by omega) hout hlen hwrap
    (by rw [hold]; omega) post
  obtain ⟨ret', buf', hnew, htext, hret'⟩ :=
    htmlspecialcharsl_whole hlen (Nat.le_of_succ_le hroom) hbuf post
  rw [hold] at hwithin hret
  refine ⟨ret, ret', _, buf', hwithin.run, hnew, ?_, ?_⟩
  · rw [htext, hret, Nat.add_sub_cancel, List.take_set_of_le (Nat.le_succ _), overwrite,
      List.take_left, flatMap_escApos]
  · rw [hret', hret, hlength]
    omega

/-- `a'`, with room for nine bytes. -/
theorem htmlspecialchars_upgrade_apos :
    ∃ (ret ret' : UInt64) (output' buf' : List UInt8),
      htmlspecialchars [1, 1, 1, 1, 1, 1, 1, 1, 1] 9 ([0x61, 0x27] ++ []) 2 = .ok (ret, output') ∧
      Html.htmlspecialcharsl [2, 2, 2, 2, 2, 2, 2, 2, 2] 9 ([0x61, 0x27] ++ []) 2 = .ok (ret', buf') ∧
      buf'.take ret'.toNat = (output'.take (ret.toNat - 1)).flatMap escApos ∧
      ret'.toNat + 1 = ret.toNat + 5 * [0x61, 0x27].count '\''.toUInt8 :=
  htmlspecialchars_upgrade (by decide) (by decide) (by decide) (by decide) []

end Bluetea.OldString
