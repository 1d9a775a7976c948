import Bluetea.Html.Equiv.Agree
import Bluetea.Html.Equiv.Decode

/-!
# What a call leaves in the buffer

A call that reads at least one byte writes the terminator behind its text, whichever way it
leaves the loop, so the buffer holds a C string of the returned length.  A call on an empty input
returns before anything is written: the buffer holds the empty string only if it did so before
(`htmlspecialchars_leavesString_iff`).
-/

namespace Bluetea.Html

open Buffer Encoding

/-- The call left a C string: the terminator is at the returned length, inside the buffer, and
when no NUL was copied, what is read back from the buffer is the escaped text. -/
structure Outcome.LeavesString (r : Outcome) (outlen : UInt64) : Prop where
  ret_lt : r.ret < outlen
  nul : r.buf[r.ret.toNat]? = some 0
  read_back : (∀ b ∈ r.consumed, b ≠ 0) →
    ∃ s : CStr, s.At r.buf 0 ∧ s.strlen = r.ret.toNat ∧ s.bytes = r.consumed.flatMap esc

variable {buf inp p : List UInt8} {outlen inlen : UInt64}

/-- No entity contains a NUL. -/
theorem esc_ne_zero {c : UInt8} (hc : c ≠ 0) : ∀ b ∈ esc c, b ≠ 0 := by
  intro b hb
  rcases esc_cases c with hspecial | ⟨hesc, -⟩
  · have hall : (entities.all fun e => e.all fun b => b != 0) = true := rfl
    have he : esc c ∈ entities := List.mem_map_of_mem hspecial
    exact CStr.ne_zero_of_all (List.all_eq_true.mp hall _ he) b hb
  · rw [hesc] at hb
    rw [List.mem_singleton.mp hb]
    exact hc

/-- The escape of a string is a string. -/
def escapeStr (p : List UInt8) (hp : ∀ b ∈ p, b ≠ 0) : CStr where
  bytes := p.flatMap esc
  ne_zero b hb := by
    obtain ⟨c, hc, hbc⟩ := List.mem_flatMap.mp hb
    exact esc_ne_zero (hp c hc) b hbc

/-- The text and the terminator over the buffer make a C string. -/
theorem leavesString_overwrite (hout : 1 ≤ outlen.toNat)
    (hfits : (p.flatMap esc).length ≤ outlen.toNat - 1) :
    Outcome.LeavesString
      ⟨p, UInt64.ofNat (p.flatMap esc).length, overwrite (p.flatMap esc ++ [0]) buf⟩ outlen := by
  have hret : (UInt64.ofNat (p.flatMap esc).length).toNat = (p.flatMap esc).length :=
    toNat_ofNat_length hfits
  constructor
  · rw [UInt64.lt_iff_toNat_lt, hret]
    omega
  · rw [hret, getElem?_overwrite_of_lt (by rw [List.length_append]; exact Nat.lt_succ_self _)]
    exact List.getElem?_concat_length
  · intro hp
    refine ⟨escapeStr p hp, ⟨buf.drop (p.flatMap esc ++ [0]).length, ?_⟩, hret.symm, rfl⟩
    rw [List.drop_zero]
    unfold overwrite
    rw [List.append_assoc]
    rfl

/-- The early return: nothing was read and nothing written. -/
theorem leavesString_early_iff (hout : 1 ≤ outlen.toNat) :
    Outcome.LeavesString ⟨[], 0, buf⟩ outlen ↔ buf[0]? = some 0 := by
  constructor
  · intro h
    exact h.nul
  · intro h
    refine ⟨?_, h, ?_⟩
    · rw [UInt64.lt_iff_toNat_lt]
      exact hout
    · intro _
      obtain ⟨hlt, hget⟩ := List.getElem?_eq_some_iff.mp h
      refine ⟨CStr.empty, ⟨buf.drop 1, ?_⟩, rfl, rfl⟩
      rw [List.drop_eq_getElem_cons hlt, hget]
      rfl

/-- A call of `htmlspecialcharsl` on a non-empty input leaves a C string. -/
theorem htmlspecialcharslIn_leavesString (hout : 1 ≤ outlen.toNat)
    (hbuf : outlen.toNat ≤ buf.length) (hin : 1 ≤ inlen.toNat)
    (hinp : inlen.toNat ≤ inp.length) :
    ∃ r, htmlspecialcharslIn buf outlen inp inlen = .ok r ∧ r.LeavesString outlen := by
  obtain ⟨⟨p, ret, buf'⟩, hrun, hconsumed, -⟩ :=
    EscapeCall.run_spec ⟨buf, outlen, inp, inlen, hout, hbuf, hinp⟩
  have heq := htmlspecialcharslIn_eq buf outlen inp inlen
  rw [hrun, htmlspecialcharsl_eq hout hbuf hin hinp] at heq
  -- the outcome is the one written down in `leavesString_overwrite`
  cases hconsumed
  cases heq
  exact ⟨_, hrun, leavesString_overwrite hout (fitting_longest esc _ _).fits⟩

/-- `htmlspecialchars` on a string that is not empty. -/
theorem htmlspecialchars_text (hout : 1 ≤ outlen.toNat) (hbuf : outlen.toNat ≤ buf.length)
    {s : CStr} (hs : s.bytes ≠ []) (post : List UInt8) :
    htmlspecialchars buf outlen (s.bytes ++ 0 :: post)
      = let text := (fitting esc (outlen.toNat - 1) s.bytes).flatMap esc
        .ok (UInt64.ofNat text.length, overwrite (text ++ [0]) buf) := by
  have hfits := (fitting_longest esc (outlen.toNat - 1) s.bytes).fits
  have hzero : outlen ≠ 0 := by
    rintro rfl
    exact absurd hout (by decide)
  have hload : load (s.bytes ++ 0 :: post) 0 = .ok (s.bytes.head hs) := by
    rw [load, List.getElem?_append_left (List.length_pos_of_ne_nil hs),
      ← List.head?_eq_getElem?, List.head?_eq_some_head hs]
  have hhead : s.bytes.head hs ≠ 0 := s.ne_zero _ (List.head_mem hs)
  -- the loop that stops at the NUL goes as far as the one that is given the length
  have hloop : htmlspecialcharslLoop (s.bytes ++ 0 :: post) outlen.toNat s.bytes.length 0
      ([] : List UInt8).length (overwrite [] buf) = _ :=
    htmlspecialcharslLoop_eq hout hbuf (by rw [List.length_append]; omega)
  rw [overwrite_nil, List.length_nil, List.drop_zero, List.take_left, Nat.sub_zero] at hloop
  simp only [List.nil_append] at hloop
  have hagree := htmlspecialcharsLoop_eq [] post s.ne_zero outlen.toNat 0 buf
  rw [List.length_nil, List.nil_append, hloop] at hagree
  rw [htmlspecialchars, if_neg hzero, hload]
  simp only [bind, Except.bind]
  rw [if_neg hhead, hagree]
  dsimp only
  rw [store_overwrite (by omega)]
  rfl

/-- Both escapers leave a C string, for every size of the buffer and whatever was in it, exactly
when the input is not empty or the buffer began with a NUL already. -/
theorem htmlspecialchars_leavesString_iff (hout : 1 ≤ outlen.toNat)
    (hbuf : outlen.toNat ≤ buf.length) :
    (∀ inp inlen, inlen.toNat ≤ inp.length →
      ∃ r, htmlspecialcharslIn buf outlen inp inlen = .ok r ∧
        htmlspecialcharsl buf outlen inp inlen = .ok (r.ret, r.buf) ∧
        (r.LeavesString outlen ↔ inlen ≠ 0 ∨ buf[0]? = some 0)) ∧
    ∀ (s : CStr) (post : List UInt8),
      ∃ r : Outcome, r.consumed <+: s.bytes ∧
        htmlspecialchars buf outlen (s.bytes ++ 0 :: post) = .ok (r.ret, r.buf) ∧
        (r.LeavesString outlen ↔ s.bytes ≠ [] ∨ buf[0]? = some 0) := by
  have hzero : outlen ≠ 0 := by
    rintro rfl
    exact absurd hout (by decide)
  constructor
  · intro inp inlen hinp
    -- an empty input takes the early return, and `buf[0]` stays as it was
    by_cases hin : inlen = 0
    · refine ⟨⟨[], 0, buf⟩, if_pos (Or.inr hin), if_pos (Or.inr hin), ?_⟩
      rw [leavesString_early_iff hout]
      exact (or_iff_right (not_not.mpr hin)).symm
    · obtain ⟨r, hrun, hr⟩ :=
        htmlspecialcharslIn_leavesString hout hbuf (one_le_toNat hin) hinp
      have heq := htmlspecialcharslIn_eq buf outlen inp inlen
      rw [hrun] at heq
      exact ⟨r, hrun, heq.symm, iff_of_true hr (Or.inl hin)⟩
  · intro s post
    by_cases hs : s.bytes = []
    · refine ⟨⟨[], 0, buf⟩, List.nil_prefix, ?_, ?_⟩
      · rw [htmlspecialchars, if_neg hzero, hs]
        rfl
      · rw [leavesString_early_iff hout]
        exact (or_iff_right (not_not.mpr hs)).symm
    · have hlongest := fitting_longest esc (outlen.toNat - 1) s.bytes
      exact ⟨_, hlongest.le, htmlspecialchars_text hout hbuf hs post,
        iff_of_true (leavesString_overwrite hout hlongest.fits) (Or.inl hs)⟩

/-- One byte of room in a buffer that holds an `X`. -/
theorem htmlspecialchars_leavesString_iff_one :
    (∀ inp inlen, inlen.toNat ≤ inp.length →
      ∃ r, htmlspecialcharslIn [0x58] 1 inp inlen = .ok r ∧
        htmlspecialcharsl [0x58] 1 inp inlen = .ok (r.ret, r.buf) ∧
        (r.LeavesString 1 ↔ inlen ≠ 0 ∨ [(0x58 : UInt8)][0]? = some 0)) ∧
    ∀ (s : CStr) (post : List UInt8),
      ∃ r : Outcome, r.consumed <+: s.bytes ∧
        htmlspecialchars [0x58] 1 (s.bytes ++ 0 :: post) = .ok (r.ret, r.buf) ∧
        (r.LeavesString 1 ↔ s.bytes ≠ [] ∨ [(0x58 : UInt8)][0]? = some 0) :=
  htmlspecialchars_leavesString_iff (by decide) (by decide)

/-- An empty input leaves the `X` where the string should end. -/
theorem htmlspecialchars_leaves_garbage :
    (¬∃ r : Outcome, htmlspecialcharsl [0x58] 1 [] 0 = .ok (r.ret, r.buf) ∧ r.LeavesString 1) ∧
    ¬∃ r : Outcome, htmlspecialchars [0x58] 1 [0] = .ok (r.ret, r.buf) ∧ r.LeavesString 1 := by
  constructor
  · rintro ⟨⟨p, ret, buf⟩, hrun, hr⟩
    cases hrun
    have hnul : [(0x58 : UInt8)][0]? = some 0 := hr.nul
    exact absurd hnul (by decide)
  · rintro ⟨⟨p, ret, buf⟩, hrun, hr⟩
    cases hrun
    have hnul : [(0x58 : UInt8)][0]? = some 0 := hr.nul
    exact absurd hnul (by decide)

end Bluetea.Html
