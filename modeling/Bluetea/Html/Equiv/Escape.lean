import Bluetea.Encoding.Bounded
import Bluetea.Html.Basic

/-!
# The escaper writes the longest prefix that fits

In the loop the buffer is always `overwrite w buf`, where `w` is what has been emitted, and there
is room for one byte behind `w`.  Both room checks then ask whether the symbol fits in front of
that byte (`emit_eq`), so the loop stops exactly where `Encoding.fitting` does.
-/

namespace Bluetea.Html

open Buffer Encoding

/-- The escape of a byte. -/
def esc (c : UInt8) : List UInt8 :=
  if c = '<'.toUInt8 then ['&', 'l', 't', ';'].map Char.toUInt8
  else if c = '>'.toUInt8 then ['&', 'g', 't', ';'].map Char.toUInt8
  else if c = '\"'.toUInt8 then ['&', 'q', 'u', 'o', 't', ';'].map Char.toUInt8
  else if c = '\''.toUInt8 then ['&', '#', '0', '3', '9', ';'].map Char.toUInt8
  else if c = '&'.toUInt8 then ['&', 'a', 'm', 'p', ';'].map Char.toUInt8
  else [c]

/-- The table holds the escapes: a byte that is not on the map stands for itself, and the entry of
any other byte begins with its escape. -/
theorem htmlMap_spec (c : UInt8) :
    (htmlMap c).to.get 0 = 0 ∧ esc c = [c] ∨
      (htmlMap c).to.get 0 ≠ 0 ∧ (htmlMap c).len.toNat ≤ 8 ∧
        (htmlMap c).to.toList.take (htmlMap c).len.toNat = esc c := by
  unfold htmlMap esc
  -- both go through the five special characters in the same order
  split_ifs
  iterate 5 exact Or.inr (by decide)
  exact Or.inl ⟨rfl, rfl⟩

variable {buf inp w : List UInt8} {outEnd : ℕ}

theorem shortMemcpyLoop_eq {src : List UInt8} {len csrc : ℕ} (hsrc : csrc + len ≤ src.length)
    (hbuf : w.length + len ≤ buf.length) :
    shortMemcpyLoop src len w.length csrc (overwrite w buf)
      = .ok (overwrite (w ++ (src.drop csrc).take len) buf) := by
  induction len generalizing w csrc with
  | zero => rw [shortMemcpyLoop, List.take_zero, List.append_nil]
  | succ len ih =>
    have hlt : csrc < src.length := by omega
    rw [shortMemcpyLoop, load_of_lt hlt]
    simp only [bind, Except.bind]
    rw [store_overwrite (by omega)]
    have hlen : (w ++ [src[csrc]]).length = w.length + 1 := List.length_append
    have hih : shortMemcpyLoop src len (w ++ [src[csrc]]).length (csrc + 1)
        (overwrite (w ++ [src[csrc]]) buf) = _ := ih (by omega) (by omega)
    rw [hlen] at hih
    rw [List.drop_eq_getElem_cons hlt, List.take_succ_cons]
    rw [List.append_assoc] at hih
    exact hih

/-- One symbol: it is emitted whole if it fits in front of the last byte, or not at all. -/
theorem emit_eq (hw : w.length < outEnd) (hbuf : outEnd ≤ buf.length) (c : UInt8) :
    emit (overwrite w buf) outEnd w.length c
      = .ok (if (esc c).length ≤ outEnd - 1 - w.length
          then some ((w ++ esc c).length, overwrite (w ++ esc c) buf) else none) := by
  unfold emit
  dsimp only
  rcases htmlMap_spec c with ⟨hplain, hesc⟩ | ⟨hmapped, hlen, hesc⟩
  · rw [if_pos hplain, hesc]
    -- the byte and the terminator need two places
    by_cases hroom : w.length + 1 ≥ outEnd
    · rw [if_pos hroom, if_neg (by rw [List.length_singleton]; omega)]
      rfl
    · rw [if_neg hroom, if_pos (by rw [List.length_singleton]; omega)]
      rw [store_overwrite (by omega), List.length_append]
      rfl
  · have hlength : (esc c).length = (htmlMap c).len.toNat := by
      rw [← hesc, List.length_take, Vector.length_toList]
      omega
    rw [if_neg hmapped]
    by_cases hroom : w.length + (htmlMap c).len.toNat ≥ outEnd
    · rw [if_pos hroom, if_neg (by omega)]
      rfl
    · rw [if_neg hroom, if_pos (by omega), shortMemcpy, UInt8.ofNat_toNat,
        shortMemcpyLoop_eq (by rw [Vector.length_toList]; omega) (by omega), List.drop_zero, hesc,
        List.length_append, hlength]
      rfl

/-- The loop, from any point on: `w` has been emitted and `n` bytes are left to read. -/
theorem htmlspecialcharslLoop_eq {n i : ℕ} (hw : w.length < outEnd) (hbuf : outEnd ≤ buf.length)
    (hinp : i + n ≤ inp.length) :
    htmlspecialcharslLoop inp outEnd n i w.length (overwrite w buf)
      = let text := (fitting esc (outEnd - 1 - w.length) ((inp.drop i).take n)).flatMap esc
        .ok ((w ++ text).length, overwrite (w ++ text) buf) := by
  induction n generalizing i w with
  | zero => simp [htmlspecialcharslLoop, fitting]
  | succ n ih =>
    have hlt : i < inp.length := by omega
    rw [htmlspecialcharslLoop, load_of_lt hlt, List.drop_eq_getElem_cons hlt,
      List.take_succ_cons, fitting]
    simp only [bind, Except.bind]
    rw [emit_eq hw hbuf]
    by_cases hroom : (esc inp[i]).length ≤ outEnd - 1 - w.length
    · -- the symbol is emitted, and the room behind it is smaller by its length
      simp only [if_pos hroom]
      have hlen : (w ++ esc inp[i]).length = w.length + (esc inp[i]).length :=
        List.length_append
      rw [ih (by omega) (by omega)]
      dsimp only
      rw [hlen, Nat.sub_add_eq, List.flatMap_cons, ← List.append_assoc]
    · -- `break`
      simp only [if_neg hroom, List.flatMap_nil, List.append_nil]
      rfl

variable {outlen inlen : UInt64}

theorem one_le_toNat {n : UInt64} (h : n ≠ 0) : 1 ≤ n.toNat :=
  UInt64.lt_iff_toNat_lt.mp (UInt64.pos_iff_ne_zero.mpr h)

/-- The call as a whole: the escaped text and the terminator are written over the buffer. -/
theorem htmlspecialcharsl_eq (hout : 1 ≤ outlen.toNat) (hbuf : outlen.toNat ≤ buf.length)
    (hin : 1 ≤ inlen.toNat) (hinp : inlen.toNat ≤ inp.length) :
    htmlspecialcharsl buf outlen inp inlen
      = let text := (fitting esc (outlen.toNat - 1) (inp.take inlen.toNat)).flatMap esc
        .ok (UInt64.ofNat text.length, overwrite (text ++ [0]) buf) := by
  have hfits := (fitting_longest esc (outlen.toNat - 1) (inp.take inlen.toNat)).fits
  have hzero : ¬(outlen = 0 ∨ inlen = 0) := by
    rintro (rfl | rfl)
    · exact absurd hout (by decide)
    · exact absurd hin (by decide)
  -- nothing has been emitted when the loop is entered
  have hloop : htmlspecialcharslLoop inp outlen.toNat inlen.toNat 0 ([] : List UInt8).length
      (overwrite [] buf) = _ := htmlspecialcharslLoop_eq hout hbuf (by omega)
  rw [overwrite_nil, List.length_nil, List.drop_zero, Nat.sub_zero] at hloop
  simp only [List.nil_append] at hloop
  rw [htmlspecialcharsl, if_neg hzero, hloop]
  simp only [bind, Except.bind]
  rw [store_overwrite (by omega)]
  rfl

/-- The length of a text that fits is the value returned. -/
theorem toNat_ofNat_length {t : List UInt8} (h : t.length ≤ outlen.toNat - 1) :
    (UInt64.ofNat t.length).toNat = t.length := by
  have hlt := outlen.toNat_lt
  rw [UInt64.toNat_ofNat']
  exact Nat.mod_eq_of_lt (by omega)

/-- The text in front of the terminator. -/
theorem take_overwrite_text (t : List UInt8) : (overwrite (t ++ [0]) buf).take t.length = t := by
  rw [overwrite, List.append_assoc]
  exact List.take_left

/-- The longest prefix of the input whose escape leaves room for the terminator is written, with
the terminator behind it, and no other byte changes. -/
theorem htmlspecialcharsl_longest (hout : 1 ≤ outlen.toNat) (hbuf : outlen.toNat ≤ buf.length)
    (hin : 1 ≤ inlen.toNat) (hinp : inlen.toNat ≤ inp.length) :
    ∃ p ret buf', htmlspecialcharsl buf outlen inp inlen = .ok (ret, buf') ∧
      Longest esc (outlen.toNat - 1) (inp.take inlen.toNat) p ∧
      ret.toNat = (p.flatMap esc).length ∧
      buf'.take ret.toNat = p.flatMap esc ∧ buf'[ret.toNat]? = some 0 ∧
      ∀ i, ret.toNat < i → buf'[i]? = buf[i]? := by
  have hlongest := fitting_longest esc (outlen.toNat - 1) (inp.take inlen.toNat)
  have heq := htmlspecialcharsl_eq hout hbuf hin hinp
  generalize fitting esc (outlen.toNat - 1) (inp.take inlen.toNat) = p at hlongest heq
  refine ⟨p, _, _, heq, hlongest, ?_⟩
  have hlen : (p.flatMap esc ++ [0]).length = (p.flatMap esc).length + 1 := List.length_append
  rw [toNat_ofNat_length hlongest.fits]
  refine ⟨rfl, take_overwrite_text _, ?_, fun i hi => getElem?_overwrite_of_le (by omega)⟩
  rw [getElem?_overwrite_of_lt (by omega)]
  exact List.getElem?_concat_length

/-- `a<b` with room for 6 bytes in a buffer of 7: the entity just fits, the last letter does not. -/
theorem htmlspecialcharsl_longest_cut :
    ∃ p ret buf', htmlspecialcharsl [1, 2, 3, 4, 5, 6, 7] 6 [0x61, 0x3c, 0x62] 3
        = .ok (ret, buf') ∧
      Longest esc 5 [0x61, 0x3c, 0x62] p ∧ ret.toNat = (p.flatMap esc).length ∧
      buf'.take ret.toNat = p.flatMap esc ∧ buf'[ret.toNat]? = some 0 ∧
      ∀ i, ret.toNat < i → buf'[i]? = [1, 2, 3, 4, 5, 6, 7][i]? :=
  htmlspecialcharsl_longest (by decide) (by decide) (by decide) (by decide)

example : htmlspecialcharsl [1, 2, 3, 4, 5, 6, 7] 6 [0x61, 0x3c, 0x62] 3
    = .ok (5, [0x61, 0x26, 0x6c, 0x74, 0x3b, 0, 7]) := by
  rfl

end Bluetea.Html
