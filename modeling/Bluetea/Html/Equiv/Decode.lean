import Bluetea.Encoding.Unique
import Bluetea.Html.Equiv.Escape

/-!
# Escaped text can be read back

The words that stand for the bytes form a prefix-free code (`esc_prefixFree`), and a `&` occurs
only at their beginning.  So the text in the output tells which bytes of the input were consumed,
and every `&` in it begins an entity, wherever the output was cut off.

To speak of the bytes that were consumed, the loop is run with `in` among its results
(`htmlspecialcharslIn`); it is the same loop (`htmlspecialcharslIn_eq`).
-/

namespace Bluetea.Html

open Buffer Encoding

/-- A call, with buffers that are as long as the caller says. -/
structure EscapeCall where
  buf : List UInt8
  outlen : UInt64
  inp : List UInt8
  inlen : UInt64
  one_le : 1 ≤ outlen.toNat
  outlen_le : outlen.toNat ≤ buf.length
  inlen_le : inlen.toNat ≤ inp.length

/-- The input of a call. -/
def EscapeCall.input (c : EscapeCall) : List UInt8 := c.inp.take c.inlen.toNat

/-- The loop of `htmlspecialcharsl`, with `in` among its results. -/
def htmlspecialcharslLoopIn (inp : List UInt8) (outEnd : ℕ) :
    ℕ → ℕ → ℕ → List UInt8 → Except Fault (ℕ × ℕ × List UInt8)
  | 0, i, out, buf => .ok (i, out, buf)
  | n + 1, i, out, buf => do
    let c ← load inp i
    match ← emit buf outEnd out c with
    | none => return (i, out, buf)
    | some (out, buf) => htmlspecialcharslLoopIn inp outEnd n (i + 1) out buf

/-- What a call consumed, what it returned, and the buffer. -/
structure Outcome where
  consumed : List UInt8
  ret : UInt64
  buf : List UInt8

/-- The text that was produced. -/
def Outcome.text (r : Outcome) : List UInt8 := r.buf.take r.ret.toNat

def htmlspecialcharslIn (buf : List UInt8) (outlen : UInt64) (inp : List UInt8)
    (inlen : UInt64) : Except Fault Outcome :=
  if outlen = 0 ∨ inlen = 0 then return ⟨[], 0, buf⟩
  else do
    let (i, out, buf) ← htmlspecialcharslLoopIn inp outlen.toNat inlen.toNat 0 0 buf
    let buf ← store buf out 0
    return ⟨inp.take i, UInt64.ofNat out, buf⟩

variable {buf inp w : List UInt8} {outEnd : ℕ}

theorem htmlspecialcharslLoopIn_eq (n i out : ℕ) (buf : List UInt8) :
    (htmlspecialcharslLoopIn inp outEnd n i out buf).map Prod.snd
      = htmlspecialcharslLoop inp outEnd n i out buf := by
  induction n generalizing i out buf with
  | zero => rfl
  | succ n ih =>
    rw [htmlspecialcharslLoopIn, htmlspecialcharslLoop]
    simp only [bind, Except.bind]
    cases load inp i with
    | error e => rfl
    | ok c =>
      dsimp only
      cases emit buf outEnd out c with
      | error e => rfl
      | ok r =>
        cases r with
        | none => rfl
        | some p => exact ih (i + 1) p.1 p.2

/-- With `in` or without it, the call does the same. -/
theorem htmlspecialcharslIn_eq (buf : List UInt8) (outlen : UInt64) (inp : List UInt8)
    (inlen : UInt64) :
    (htmlspecialcharslIn buf outlen inp inlen).map (fun r => (r.ret, r.buf))
      = htmlspecialcharsl buf outlen inp inlen := by
  unfold htmlspecialcharslIn htmlspecialcharsl
  by_cases hzero : outlen = 0 ∨ inlen = 0
  · rw [if_pos hzero, if_pos hzero]
    rfl
  · rw [if_neg hzero, if_neg hzero, ← htmlspecialcharslLoopIn_eq]
    simp only [bind, Except.bind]
    cases htmlspecialcharslLoopIn inp outlen.toNat inlen.toNat 0 0 buf with
    | error e => rfl
    | ok p =>
      dsimp only [Except.map]
      cases store p.2.2 p.2.1 0 <;> rfl

/-- When the loop ends, `in` is behind the bytes whose escape fits. -/
theorem htmlspecialcharslLoopIn_index {n i : ℕ} (hw : w.length < outEnd)
    (hbuf : outEnd ≤ buf.length) (hinp : i + n ≤ inp.length) :
    (htmlspecialcharslLoopIn inp outEnd n i w.length (overwrite w buf)).map Prod.fst
      = .ok (i + (fitting esc (outEnd - 1 - w.length) ((inp.drop i).take n)).length) := by
  induction n generalizing i w with
  | zero => simp [htmlspecialcharslLoopIn, fitting, Except.map]
  | succ n ih =>
    have hlt : i < inp.length := by omega
    rw [htmlspecialcharslLoopIn, load_of_lt hlt, List.drop_eq_getElem_cons hlt,
      List.take_succ_cons, fitting]
    simp only [bind, Except.bind]
    rw [emit_eq hw hbuf]
    by_cases hroom : (esc inp[i]).length ≤ outEnd - 1 - w.length
    · simp only [if_pos hroom]
      have hlen : (w ++ esc inp[i]).length = w.length + (esc inp[i]).length :=
        List.length_append
      rw [ih (by omega) (by omega), hlen, Nat.sub_add_eq, List.length_cons, Nat.add_assoc,
        Nat.add_comm 1]
    · -- no room: the loop leaves, and the index stays on the symbol
      simp only [if_neg hroom]
      rfl

theorem eq_ok_of_map {ε α β : Type*} {x : Except ε (α × β)} {a : α} {b : β}
    (ha : x.map Prod.fst = .ok a) (hb : x.map Prod.snd = .ok b) : x = .ok (a, b) := by
  cases x with
  | error e => cases ha
  | ok p =>
    cases ha
    cases hb
    rfl

/-- A call consumes the longest prefix of its input that fits, and produces its escape. -/
theorem EscapeCall.run_spec (c : EscapeCall) :
    ∃ r, htmlspecialcharslIn c.buf c.outlen c.inp c.inlen = .ok r ∧
      r.consumed = fitting esc (c.outlen.toNat - 1) c.input ∧ r.text = r.consumed.flatMap esc := by
  have hlongest := fitting_longest esc (c.outlen.toNat - 1) c.input
  have hone := c.one_le
  have hbuf := c.outlen_le
  have hinp := c.inlen_le
  by_cases hin : c.inlen = 0
  · -- no input: nothing is written, not even a terminator
    refine ⟨⟨[], 0, c.buf⟩, ?_, ?_, rfl⟩
    · rw [htmlspecialcharslIn, if_pos (Or.inr hin)]
      rfl
    · rw [EscapeCall.input, hin]
      rfl
  · have hzero : ¬(c.outlen = 0 ∨ c.inlen = 0) := by
      rintro (hout | hin')
      · rw [hout] at hone
        exact absurd hone (by decide)
      · exact hin hin'
    have hrun : htmlspecialcharslLoopIn c.inp c.outlen.toNat c.inlen.toNat 0 0 c.buf
        = let p := fitting esc (c.outlen.toNat - 1) c.input
          .ok (p.length, (p.flatMap esc).length, overwrite (p.flatMap esc) c.buf) := by
      have hindex := htmlspecialcharslLoopIn_index (w := []) (i := 0) hone hbuf
        ((Nat.zero_add c.inlen.toNat).symm ▸ hinp)
      rw [Nat.zero_add] at hindex
      refine eq_ok_of_map hindex ?_
      rw [htmlspecialcharslLoopIn_eq]
      exact htmlspecialcharslLoop_eq (w := []) hone hbuf
        ((Nat.zero_add c.inlen.toNat).symm ▸ hinp)
    dsimp only at hrun
    generalize fitting esc (c.outlen.toNat - 1) c.input = p at hlongest hrun
    have hfits := hlongest.fits
    have htake : c.inp.take p.length = p := by
      have hpre : p <+: c.inp := hlongest.le.trans (List.take_prefix ..)
      exact (List.prefix_iff_eq_take.mp hpre).symm
    refine ⟨⟨p, UInt64.ofNat (p.flatMap esc).length, overwrite (p.flatMap esc ++ [0]) c.buf⟩,
      ?_, rfl, ?_⟩
    · rw [htmlspecialcharslIn, if_neg hzero, hrun]
      simp only [bind, Except.bind]
      rw [store_overwrite (by omega), htake]
      rfl
    · rw [Outcome.text, toNat_ofNat_length hfits]
      exact take_overwrite_text _

/-! ### The code -/

/-- The ampersand. -/
def amp : UInt8 := '&'.toUInt8

/-- The special characters with their entities. -/
def special : List (UInt8 × List UInt8) :=
  [('<'.toUInt8, ['&', 'l', 't', ';'].map Char.toUInt8),
    ('>'.toUInt8, ['&', 'g', 't', ';'].map Char.toUInt8),
    ('\"'.toUInt8, ['&', 'q', 'u', 'o', 't', ';'].map Char.toUInt8),
    ('\''.toUInt8, ['&', '#', '0', '3', '9', ';'].map Char.toUInt8),
    ('&'.toUInt8, ['&', 'a', 'm', 'p', ';'].map Char.toUInt8)]

/-- The entities. -/
def entities : List (List UInt8) := special.map Prod.snd

/-- No byte of it opens or closes a tag or a string, and each `&` begins an entity. -/
structure Clean (text : List UInt8) : Prop where
  no_markup : ∀ b ∈ text, b ≠ '<'.toUInt8 ∧ b ≠ '>'.toUInt8 ∧ b ≠ '\"'.toUInt8 ∧
    b ≠ '\''.toUInt8
  entity : ∀ i, text[i]? = some amp → ∃ e ∈ entities, e <+: text.drop i

/-- A byte is special, or it stands for itself. -/
theorem esc_cases (c : UInt8) :
    (c, esc c) ∈ special ∨ esc c = [c] ∧ ∀ p ∈ special, c ≠ p.1 := by
  unfold esc
  split_ifs with hlt hgt hquot hapos hamp
  · exact Or.inl (by rw [hlt]; decide)
  · exact Or.inl (by rw [hgt]; decide)
  · exact Or.inl (by rw [hquot]; decide)
  · exact Or.inl (by rw [hapos]; decide)
  · exact Or.inl (by rw [hamp]; decide)
  · refine Or.inr ⟨rfl, ?_⟩
    simp only [special, List.forall_mem_cons, List.not_mem_nil, false_implies, implies_true,
      and_true]
    exact ⟨hlt, hgt, hquot, hapos, hamp⟩

/-- An entity has one `&`, at its beginning, and no other special character. -/
theorem special_entity {p : UInt8 × List UInt8} (hp : p ∈ special) :
    ∃ e, p.2 = amp :: e ∧ ∀ q ∈ special, q.1 ∉ e := by
  simp only [special, List.mem_cons, List.not_mem_nil, or_false] at hp
  rcases hp with rfl | rfl | rfl | rfl | rfl
  · exact ⟨_, rfl, by decide⟩
  · exact ⟨_, rfl, by decide⟩
  · exact ⟨_, rfl, by decide⟩
  · exact ⟨_, rfl, by decide⟩
  · exact ⟨_, rfl, by decide⟩

/-- No entity is a prefix of another one. -/
theorem special_comparable {p q : UInt8 × List UInt8} (hp : p ∈ special) (hq : q ∈ special)
    (h : p.2 <+: q.2) : p = q := by
  have hall : (special.all fun p => special.all fun q => !p.2.isPrefixOf q.2 || p == q) = true :=
    rfl
  have hpq := List.all_eq_true.mp (List.all_eq_true.mp hall p hp) q hq
  rw [List.isPrefixOf_iff_prefix.mpr h] at hpq
  simpa using hpq

theorem amp_special : (amp, ['&', 'a', 'm', 'p', ';'].map Char.toUInt8) ∈ special := by decide

theorem esc_prefixFree : PrefixFree esc := by
  constructor
  · intro x hx
    rcases esc_cases x with hs | ⟨hesc, -⟩
    · obtain ⟨e, he, -⟩ := special_entity hs
      rw [hx] at he
      cases he
    · rw [hesc] at hx
      cases hx
  · -- an entity begins with `&`, which does not stand for itself
    intro x y h
    rcases esc_cases x with hx | ⟨hx, hxplain⟩
    · obtain ⟨e, he, -⟩ := special_entity hx
      rcases esc_cases y with hy | ⟨hy, hyplain⟩
      · exact congrArg Prod.fst (special_comparable hx hy h)
      · dsimp only at he
        rw [he, hy] at h
        exact absurd (List.cons_prefix_cons.mp h).1.symm (hyplain _ amp_special)
    · rcases esc_cases y with hy | ⟨hy, -⟩
      · obtain ⟨e, he, -⟩ := special_entity hy
        dsimp only at he
        rw [hx, he] at h
        exact absurd (List.cons_prefix_cons.mp h).1 (hxplain _ amp_special)
      · rw [hx, hy] at h
        exact (List.cons_prefix_cons.mp h).1

/-- A byte of an escape is the `&` of an entity, a byte behind it, or a byte that is not special. -/
theorem eq_amp_or_of_mem_esc {b c : UInt8} (hb : b ∈ esc c) : b = amp ∨ ∀ q ∈ special, q.1 ≠ b := by
  rcases esc_cases c with hc | ⟨hc, hplain⟩
  · obtain ⟨e, he, hclean⟩ := special_entity hc
    dsimp only at he
    rw [he] at hb
    rcases List.mem_cons.mp hb with rfl | hbe
    · exact Or.inl rfl
    · exact Or.inr fun q hq hqb => hclean q hq (hqb ▸ hbe)
  · rw [hc] at hb
    rw [List.mem_singleton.mp hb]
    exact Or.inr fun q hq => (hplain q hq).symm

/-- Escaped text is clean. -/
theorem clean_flatMap (p : List UInt8) : Clean (p.flatMap esc) := by
  constructor
  · intro b hb
    obtain ⟨c, -, hbc⟩ := List.mem_flatMap.mp hb
    rcases eq_amp_or_of_mem_esc hbc with rfl | hb'
    · decide
    · simp only [special, List.forall_mem_cons] at hb'
      exact ⟨hb'.1.symm, hb'.2.1.symm, hb'.2.2.1.symm, hb'.2.2.2.1.symm⟩
  · intro i hi
    obtain ⟨hlt, hget⟩ := List.getElem?_eq_some_iff.mp hi
    obtain ⟨c, -, j, post, hj, hdrop⟩ := drop_flatMap hlt
    have hword : (esc c)[j]? = some amp := by
      rw [← hi, ← Nat.add_zero i, ← List.getElem?_drop, hdrop,
        List.getElem?_append_left (by rw [List.length_drop]; omega), List.getElem?_drop,
        Nat.add_zero]
    rcases esc_cases c with hc | ⟨hc, hplain⟩
    · -- in an entity `&` is the first byte, so the whole entity is there
      obtain ⟨e, he, hclean⟩ := special_entity hc
      refine ⟨esc c, List.mem_map_of_mem hc, post, ?_⟩
      cases j with
      | zero => rw [hdrop, List.drop_zero]
      | succ j =>
        dsimp only at he
        rw [he, List.getElem?_cons_succ] at hword
        exact absurd (List.mem_of_getElem? hword) (hclean _ amp_special)
    · rw [hc] at hword
      have hmem := List.mem_of_getElem? hword
      exact absurd (List.mem_singleton.mp hmem).symm (hplain _ amp_special)

/-! ### The calls -/

/-- Two calls that produce the same text have consumed the same bytes, so when neither output was
cut off their inputs are the same.  Whatever was cut off, the text is clean. -/
theorem htmlspecialcharsl_unambiguous (c d : EscapeCall) :
    ∃ r s, htmlspecialcharslIn c.buf c.outlen c.inp c.inlen = .ok r ∧
      htmlspecialcharslIn d.buf d.outlen d.inp d.inlen = .ok s ∧
      htmlspecialcharsl c.buf c.outlen c.inp c.inlen = .ok (r.ret, r.buf) ∧
      htmlspecialcharsl d.buf d.outlen d.inp d.inlen = .ok (s.ret, s.buf) ∧
      (r.consumed <+: c.input ∧ s.consumed <+: d.input) ∧
      (r.text = s.text → r.consumed = s.consumed) ∧
      (r.text = s.text → r.consumed = c.input → s.consumed = d.input → c.input = d.input) ∧
      Clean r.text ∧ Clean s.text := by
  obtain ⟨r, hr, hrc, hrt⟩ := c.run_spec
  obtain ⟨s, hs, hsc, hst⟩ := d.run_spec
  -- no escape is the beginning of another, so the text is cut into escapes in one way only
  have hinj : r.text = s.text → r.consumed = s.consumed := by
    intro htext
    rw [hrt, hst] at htext
    exact esc_prefixFree.flatMap_injective htext
  have hr' := htmlspecialcharslIn_eq c.buf c.outlen c.inp c.inlen
  have hs' := htmlspecialcharslIn_eq d.buf d.outlen d.inp d.inlen
  rw [hr] at hr'
  rw [hs] at hs'
  refine ⟨r, s, hr, hs, hr'.symm, hs'.symm, ⟨?_, ?_⟩, hinj, ?_, ?_, ?_⟩
  · rw [hrc]
    exact (fitting_longest esc _ _).le
  · rw [hsc]
    exact (fitting_longest esc _ _).le
  · intro htext hc hd
    rw [← hc, ← hd]
    exact hinj htext
  · rw [hrt]
    exact clean_flatMap _
  · rw [hst]
    exact clean_flatMap _

/-- `"a<b"` and `"a<"`, the first cut off behind the entity. -/
def cutCall : EscapeCall where
  buf := List.replicate 8 0xff
  outlen := 6
  inp := [0x61, 0x3c, 0x62]
  inlen := 3
  one_le := by decide
  outlen_le := by decide
  inlen_le := by decide

def wholeCall : EscapeCall where
  buf := List.replicate 10 0xff
  outlen := 10
  inp := [0x61, 0x3c]
  inlen := 2
  one_le := by decide
  outlen_le := by decide
  inlen_le := by decide

theorem htmlspecialcharsl_unambiguous_cut :
    ∃ r s : Outcome, htmlspecialcharsl cutCall.buf cutCall.outlen cutCall.inp cutCall.inlen
        = .ok (r.ret, r.buf) ∧
      htmlspecialcharsl wholeCall.buf wholeCall.outlen wholeCall.inp wholeCall.inlen
        = .ok (s.ret, s.buf) ∧
      r.text = s.text ∧ r.consumed = s.consumed ∧ r.consumed ≠ cutCall.input ∧
      s.consumed = wholeCall.input ∧ Clean r.text := by
  obtain ⟨r, s, hr, hs, hr', hs', -, hinj, -, hclean, -⟩ :=
    htmlspecialcharsl_unambiguous cutCall wholeCall
  obtain rfl : Outcome.mk [0x61, 0x3c] 5 [0x61, 0x26, 0x6c, 0x74, 0x3b, 0, 0xff, 0xff] = r :=
    Except.ok.inj hr
  obtain rfl : Outcome.mk [0x61, 0x3c] 5 [0x61, 0x26, 0x6c, 0x74, 0x3b, 0, 0xff, 0xff, 0xff, 0xff]
      = s := Except.ok.inj hs
  exact ⟨_, _, hr', hs', rfl, hinj rfl, by decide, rfl, hclean⟩

end Bluetea.Html
