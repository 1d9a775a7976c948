import Bluetea.CString.Basic
import Bluetea.Html.Equiv.Escape
import Mathlib.Algebra.Group.Nat.Defs

/-!
# The two escapers agree

`htmlspecialchars` stops at the terminator, `htmlspecialcharsl` at the end of the input it is
told.  When that is where the terminator is, the two loops go through the same bytes and do the
same with each, faults included (`htmlspecialcharsLoop_eq`).
-/

namespace Bluetea.Html

open Buffer

/-- What `strlen` returns. -/
def strlen (s : CStr) : UInt64 := UInt64.ofNat s.strlen

/-- The loops from any place on: `pre` is behind `in`, and `s` up to the terminator. -/
theorem htmlspecialcharsLoop_eq (pre post : List UInt8) {s : List UInt8} (hs : ∀ b ∈ s, b ≠ 0)
    (outEnd out : ℕ) (buf : List UInt8) :
    htmlspecialcharsLoop outEnd (s ++ 0 :: post) pre.length out buf
      = htmlspecialcharslLoop (pre ++ (s ++ 0 :: post)) outEnd s.length pre.length out buf := by
  induction s generalizing pre out buf with
  | nil => rfl
  | cons c s ih =>
    have hc : c ≠ 0 := hs c (List.mem_cons_self ..)
    have hs' : ∀ b ∈ s, b ≠ 0 := fun b hb => hs b (List.mem_cons_of_mem _ hb)
    have hload : load (pre ++ (c :: s ++ 0 :: post)) pre.length = .ok c := by
      rw [load, List.getElem?_append_right (Nat.le_refl _), Nat.sub_self]
      rfl
    rw [List.length_cons, htmlspecialcharslLoop, hload, List.cons_append, htmlspecialcharsLoop,
      if_neg hc]
    simp only [bind, Except.bind]
    cases emit buf outEnd out c with
    | error e => rfl
    | ok r =>
      cases r with
      | none => rfl
      | some p =>
        -- the byte is behind `in` now
        have hih := ih (pre ++ [c]) hs' p.1 p.2
        rw [List.length_append, List.append_assoc] at hih
        exact hih

theorem strlen_toNat {s : CStr} (h : s.strlen < 2 ^ 64) : (strlen s).toNat = s.strlen := by
  rw [strlen, UInt64.toNat_ofNat']
  exact Nat.mod_eq_of_lt h

/-- With `strlen(s)` for the length, the calls are the same. -/
theorem htmlspecialchars_eq (buf : List UInt8) (outlen : UInt64) {s : CStr} (post : List UInt8)
    (h : s.strlen < 2 ^ 64) :
    htmlspecialchars buf outlen (s.bytes ++ 0 :: post)
      = htmlspecialcharsl buf outlen (s.bytes ++ 0 :: post) (strlen s) := by
  have hlen : (strlen s).toNat = s.bytes.length := strlen_toNat h
  unfold htmlspecialchars htmlspecialcharsl
  by_cases hout : outlen = 0
  · rw [if_pos hout, if_pos (Or.inl hout)]
  · rw [if_neg hout]
    cases hs : s.bytes with
    | nil =>
      -- an empty string: both return before anything is written
      rw [hs] at hlen
      have hzero : strlen s = 0 := UInt64.toNat_inj.mp hlen
      rw [if_pos (Or.inr hzero)]
      rfl
    | cons c bytes =>
      rw [hs] at hlen
      have hne : ¬(outlen = 0 ∨ strlen s = 0) := by
        rintro (h0 | h0)
        · exact hout h0
        · rw [h0, List.length_cons, UInt64.toNat_zero] at hlen
          omega
      have hc : c ≠ 0 := s.ne_zero c (by rw [hs]; exact List.mem_cons_self ..)
      have hload : load (c :: bytes ++ 0 :: post) 0 = .ok c := rfl
      have hloop := htmlspecialcharsLoop_eq [] post (hs ▸ s.ne_zero) outlen.toNat 0 buf
      rw [List.length_nil, List.nil_append] at hloop
      rw [if_neg hne, hload, hlen, ← hloop]
      simp only [bind, Except.bind]
      rw [if_neg hc]

/-- The two escapers return the same length and leave the same bytes in the whole buffer. -/
theorem htmlspecialchars_agrees {buf : List UInt8} {outlen : UInt64} {s : CStr}
    (post : List UInt8) (hbuf : outlen.toNat ≤ buf.length) (h : s.strlen < 2 ^ 64) :
    ∃ ret buf', htmlspecialchars buf outlen (s.bytes ++ 0 :: post) = .ok (ret, buf') ∧
      htmlspecialcharsl buf outlen (s.bytes ++ 0 :: post) (strlen s) = .ok (ret, buf') := by
  rw [htmlspecialchars_eq buf outlen post h]
  by_cases hzero : outlen = 0 ∨ strlen s = 0
  · exact ⟨0, buf, if_pos hzero, if_pos hzero⟩
  · obtain ⟨hout, hin⟩ := not_or.mp hzero
    have hinp : (strlen s).toNat ≤ (s.bytes ++ 0 :: post).length := by
      rw [strlen_toNat h, List.length_append]
      exact Nat.le_add_right ..
    have hcall := htmlspecialcharsl_eq (one_le_toNat hout) hbuf (one_le_toNat hin) hinp
    exact ⟨_, _, hcall, hcall⟩

/-- `a&b` in front of other bytes, with room for the first letter and the entity. -/
theorem htmlspecialchars_agrees_cut :
    ∃ ret buf', htmlspecialchars [1, 2, 3, 4, 5, 6, 7, 8] 7 ([0x61, 0x26, 0x62] ++ 0 :: [0x3c])
        = .ok (ret, buf') ∧
      htmlspecialcharsl [1, 2, 3, 4, 5, 6, 7, 8] 7 ([0x61, 0x26, 0x62] ++ 0 :: [0x3c])
        (strlen ⟨[0x61, 0x26, 0x62], CStr.ne_zero_of_all rfl⟩) = .ok (ret, buf') :=
  htmlspecialchars_agrees (s := ⟨[0x61, 0x26, 0x62], CStr.ne_zero_of_all rfl⟩) [0x3c] (by decide)
    (by decide)

end Bluetea.Html
