import Bluetea.Encoding.Bounded
import Bluetea.OldString.Basic
import Mathlib.Algebra.Group.Nat.Defs

/-!
# The old HTML escaper

The loop writes the longest prefix of the input that fits into the whole buffer, with no room kept
for the terminator (`htmlspecialchars_run`).  The terminator goes to the place behind the next one,
so the place in front of it keeps what was there before.
-/

namespace Bluetea.OldString

open Buffer Encoding

/-- The escape of a byte. -/
def esc (c : UInt8) : List UInt8 :=
  if c = '<'.toUInt8 then ['&', 'l', 't', ';'].map Char.toUInt8
  else if c = '>'.toUInt8 then ['&', 'g', 't', ';'].map Char.toUInt8
  else if c = '\"'.toUInt8 then ['&', 'q', 'u', 'o', 't', ';'].map Char.toUInt8
  else if c = '&'.toUInt8 then ['&', 'a', 'm', 'p', ';'].map Char.toUInt8
  else [c]

/-- The table holds the escapes. -/
theorem htmlMap_spec (c : UInt8) :
    (htmlMap c).to.toList.getD 0 0 = 0 ∧ esc c = [c] ∨
      (htmlMap c).to.toList.getD 0 0 ≠ 0 ∧ (htmlMap c).len.toNat ≤ 8 ∧
        (htmlMap c).to.toList.take (htmlMap c).len.toNat = esc c := by
  unfold htmlMap esc
  -- both go through the four special characters in the same order
  split_ifs
  iterate 4 exact Or.inr (by decide)
  exact Or.inl ⟨rfl, rfl⟩

/-- An escape is the byte itself or begins with `&`. -/
theorem esc_cases (c : UInt8) : esc c = [c] ∨ ∃ t, esc c = '&'.toUInt8 :: t := by
  unfold esc
  split_ifs
  iterate 4 exact Or.inr ⟨_, rfl⟩
  exact Or.inl rfl

theorem length_esc_pos (c : UInt8) : 0 < (esc c).length := by
  rcases esc_cases c with h | ⟨t, h⟩
  · rw [h]
    exact Nat.one_pos
  · rw [h]
    exact Nat.succ_pos _

/-- The first bytes at `cp` are the escape. -/
theorem symbol_spec (c : UInt8) (rest : List UInt8) :
    (symbol (c :: rest) c).2.toNat = (esc c).length ∧
      (symbol (c :: rest) c).2.toNat ≤ (symbol (c :: rest) c).1.length ∧
      (symbol (c :: rest) c).1.take (symbol (c :: rest) c).2.toNat = esc c := by
  unfold symbol
  dsimp only
  rcases htmlMap_spec c with ⟨hplain, hesc⟩ | ⟨hmapped, hlen, hesc⟩
  · rw [if_pos hplain, hesc]
    exact ⟨rfl, Nat.succ_pos _, rfl⟩
  · have hlength : ((htmlMap c).to.toList.take (htmlMap c).len.toNat).length
        = (htmlMap c).len.toNat := by
      rw [List.length_take, Vector.length_toList]
      omega
    rw [if_neg hmapped]
    refine ⟨?_, ?_, hesc⟩
    · rw [← hesc, hlength]
    · rw [Vector.length_toList]
      exact hlen

variable {output input s w : List UInt8} {outlen : UInt64}

/-! ### The room check -/

/-- Without wrap-around, the check asks whether the symbol fits. -/
theorem room_iff {j : UInt64} {len : UInt8} (hj : j.toNat ≤ outlen.toNat) (hpos : 0 < len.toNat)
    (hsum : j.toNat + len.toNat ≤ 2 ^ 64) :
    j + len.toUInt64 - 1 ≥ outlen ↔ ¬len.toNat ≤ outlen.toNat - j.toNat := by
  have hlt := outlen.toNat_lt
  rw [ge_iff_le, UInt64.le_iff_toNat_le, UInt64.toNat_sub, UInt64.toNat_add, UInt8.toNat_toUInt64]
  show _ ≤ (2 ^ 64 - 1 + (j.toNat + len.toNat) % 2 ^ 64) % 2 ^ 64 ↔ _
  omega

/-- When the sum wraps around, a symbol that does not fit passes the check. -/
theorem room_of_wrap {j : UInt64} {len : UInt8} (hj : j.toNat ≤ outlen.toNat)
    (hsum : 2 ^ 64 < j.toNat + len.toNat) : ¬j + len.toUInt64 - 1 ≥ outlen := by
  have hlt := outlen.toNat_lt
  have hlen := len.toNat_lt
  rw [ge_iff_le, UInt64.le_iff_toNat_le, UInt64.toNat_sub, UInt64.toNat_add, UInt8.toNat_toUInt64]
  show ¬_ ≤ (2 ^ 64 - 1 + (j.toNat + len.toNat) % 2 ^ 64) % 2 ^ 64
  omega

/-! ### The loop -/

variable {pre post : List UInt8} {c : UInt8} {i n : ℕ}

theorem toNat_ofNat_length_of_le (hw : w.length ≤ outlen.toNat) :
    (UInt64.ofNat w.length).toNat = w.length :=
  UInt64.toNat_ofNat_of_lt' (Nat.lt_of_le_of_lt hw outlen.toNat_lt)

/-- The copy of a symbol. -/
theorem memcpy_symbol (hw : w.length ≤ outlen.toNat) (hout : outlen.toNat ≤ output.length)
    (c : UInt8) (rest : List UInt8) :
    memcpy (overwrite w output) (UInt64.ofNat w.length).toNat (symbol (c :: rest) c).1
      (symbol (c :: rest) c).2.toNat = put output w (esc c) := by
  obtain ⟨hlen, hle, htake⟩ := symbol_spec c rest
  rw [toNat_ofNat_length_of_le hw, memcpy_eq_put (Nat.le_trans hw hout) hle, htake]

/-- One round of the loop. -/
theorem htmlspecialcharsLoop_cons (hinput : input = pre ++ (c :: s ++ post)) (hi : i = pre.length)
    (j : UInt64) (len : UInt8) (output : List UInt8) :
    htmlspecialcharsLoop outlen input (n + 1) i j len output
      = if j + (symbol (c :: (s ++ post)) c).2.toUInt64 - 1 ≥ outlen then
          .ok (j, (symbol (c :: (s ++ post)) c).2, output)
        else memcpy output j.toNat (symbol (c :: (s ++ post)) c).1
            (symbol (c :: (s ++ post)) c).2.toNat >>= fun output =>
          htmlspecialcharsLoop outlen input n (i + 1)
            (j + (symbol (c :: (s ++ post)) c).2.toUInt64) (symbol (c :: (s ++ post)) c).2
            output := by
  obtain ⟨hload, -, -⟩ := load_next hinput hi
  have hdrop : input.drop i = c :: (s ++ post) := by
    rw [hinput, hi]
    exact List.drop_left
  rw [htmlspecialcharsLoop, hload, hdrop]
  rfl

/-- A symbol that fits is written. -/
theorem htmlspecialcharsLoop_fits (hinput : input = pre ++ (c :: s ++ post)) (hi : i = pre.length)
    (hw : w.length ≤ outlen.toNat) (hout : outlen.toNat ≤ output.length)
    (hfits : (esc c).length ≤ outlen.toNat - w.length) (len : UInt8) :
    ∃ len', htmlspecialcharsLoop outlen input (n + 1) i (UInt64.ofNat w.length) len
        (overwrite w output)
      = htmlspecialcharsLoop outlen input n (i + 1) (UInt64.ofNat (w ++ esc c).length) len'
          (overwrite (w ++ esc c) output) := by
  have hlen := (symbol_spec c (s ++ post)).1
  have hj := toNat_ofNat_length_of_le hw
  have hlt := outlen.toNat_lt
  have hroom : ¬UInt64.ofNat w.length + (symbol (c :: (s ++ post)) c).2.toUInt64 - 1 ≥ outlen := by
    rw [room_iff (by omega) (by rw [hlen]; exact length_esc_pos c) (by omega)]
    omega
  have hnext : UInt64.ofNat w.length + (symbol (c :: (s ++ post)) c).2.toUInt64
      = UInt64.ofNat (w ++ esc c).length := by
    rw [List.length_append, UInt64.ofNat_add, ← hlen, UInt64.ofNat_uInt8ToNat]
  refine ⟨(symbol (c :: (s ++ post)) c).2, ?_⟩
  rw [htmlspecialcharsLoop_cons hinput hi, if_neg hroom, memcpy_symbol hw hout,
    put_of_le (by omega), hnext]
  rfl

/-- A symbol that does not fit ends the loop, unless the sum wraps around. -/
theorem htmlspecialcharsLoop_stops (hinput : input = pre ++ (c :: s ++ post))
    (hi : i = pre.length) (hw : w.length ≤ outlen.toNat)
    (hfits : ¬(esc c).length ≤ outlen.toNat - w.length)
    (hsum : w.length + (esc c).length ≤ 2 ^ 64) (len : UInt8) :
    ∃ len', htmlspecialcharsLoop outlen input (n + 1) i (UInt64.ofNat w.length) len
        (overwrite w output)
      = .ok (UInt64.ofNat w.length, len', overwrite w output) := by
  have hlen := (symbol_spec c (s ++ post)).1
  have hj := toNat_ofNat_length_of_le hw
  have hroom : UInt64.ofNat w.length + (symbol (c :: (s ++ post)) c).2.toUInt64 - 1 ≥ outlen := by
    rw [room_iff (by omega) (by rw [hlen]; exact length_esc_pos c) (by omega), hlen, hj]
    exact hfits
  refine ⟨(symbol (c :: (s ++ post)) c).2, ?_⟩
  rw [htmlspecialcharsLoop_cons hinput hi, if_pos hroom]

/-- When the sum wraps around, the symbol is written beyond `outlen`. -/
theorem htmlspecialcharsLoop_wraps (hinput : input = pre ++ (c :: s ++ post))
    (hi : i = pre.length) (hw : w.length ≤ outlen.toNat) (hout : output.length = outlen.toNat)
    (hsum : 2 ^ 64 < w.length + (esc c).length) (len : UInt8) :
    ∃ f, htmlspecialcharsLoop outlen input (n + 1) i (UInt64.ofNat w.length) len
        (overwrite w output) = .error f := by
  have hlen := (symbol_spec c (s ++ post)).1
  have hj := toNat_ofNat_length_of_le hw
  have hlt := outlen.toNat_lt
  have hroom : ¬UInt64.ofNat w.length + (symbol (c :: (s ++ post)) c).2.toUInt64 - 1 ≥ outlen :=
    room_of_wrap (by omega) (by omega)
  refine ⟨.write output.length, ?_⟩
  rw [htmlspecialcharsLoop_cons hinput hi, if_neg hroom, memcpy_symbol hw (by omega),
    put_of_lt (by omega)]
  rfl

/-- What is written of `s` behind `w`. -/
def written (outlen : UInt64) (w s : List UInt8) : List UInt8 :=
  fitting esc (outlen.toNat - w.length) s

/-- No sum wraps around: if there is a first symbol that does not fit, its length can be added. -/
def NoWrap (outlen : UInt64) (w s : List UInt8) : Prop :=
  ∀ c, s[(written outlen w s).length]? = some c →
    (w ++ (written outlen w s).flatMap esc).length + (esc c).length ≤ 2 ^ 64

theorem written_cons_of_fits (hfits : (esc c).length ≤ outlen.toNat - w.length) :
    written outlen w (c :: s) = c :: written outlen (w ++ esc c) s := by
  rw [written, fitting, if_pos hfits, written, List.length_append, Nat.sub_add_eq]

theorem written_cons_of_not_fits (hfits : ¬(esc c).length ≤ outlen.toNat - w.length) :
    written outlen w (c :: s) = [] := by
  rw [written, fitting, if_neg hfits]

theorem noWrap_cons_of_fits (hfits : (esc c).length ≤ outlen.toNat - w.length) :
    NoWrap outlen w (c :: s) ↔ NoWrap outlen (w ++ esc c) s := by
  unfold NoWrap
  rw [written_cons_of_fits hfits, List.length_cons, List.flatMap_cons, List.append_assoc]
  rfl

theorem noWrap_cons_of_not_fits (hfits : ¬(esc c).length ≤ outlen.toNat - w.length) :
    NoWrap outlen w (c :: s) ↔ w.length + (esc c).length ≤ 2 ^ 64 := by
  unfold NoWrap
  rw [written_cons_of_not_fits hfits, List.flatMap_nil, List.append_nil]
  simp

/-- The loop, behind what has been read and written. -/
theorem htmlspecialcharsLoop_eq (hinput : input = pre ++ (s ++ post)) (hi : i = pre.length)
    (hw : w.length ≤ outlen.toNat) (hout : outlen.toNat ≤ output.length)
    (hwrap : NoWrap outlen w s) (len : UInt8) :
    ∃ len', htmlspecialcharsLoop outlen input s.length i (UInt64.ofNat w.length) len
        (overwrite w output)
      = .ok (UInt64.ofNat (w ++ (written outlen w s).flatMap esc).length, len',
          overwrite (w ++ (written outlen w s).flatMap esc) output) := by
  induction s generalizing pre w i len with
  | nil =>
    refine ⟨len, ?_⟩
    rw [written, fitting, List.flatMap_nil, List.append_nil]
    rfl
  | cons c s ih =>
    by_cases hfits : (esc c).length ≤ outlen.toNat - w.length
    · obtain ⟨len₁, hstep⟩ := htmlspecialcharsLoop_fits (n := s.length) hinput hi hw hout hfits len
      obtain ⟨-, hnext, hi'⟩ := load_next hinput hi
      rw [noWrap_cons_of_fits hfits] at hwrap
      obtain ⟨len₂, hrest⟩ := ih hnext hi' (by rw [List.length_append]; omega) hwrap len₁
      refine ⟨len₂, ?_⟩
      rw [List.length_cons, hstep, hrest, written_cons_of_fits hfits, List.flatMap_cons,
        List.append_assoc]
    · -- the first symbol that does not fit ends the loop
      rw [noWrap_cons_of_not_fits hfits] at hwrap
      rw [written_cons_of_not_fits hfits, List.flatMap_nil, List.append_nil]
      exact htmlspecialcharsLoop_stops hinput hi hw hfits hwrap len

/-- When a sum wraps around, the loop does not stay in a buffer of `outlen` bytes. -/
theorem htmlspecialcharsLoop_error (hinput : input = pre ++ (s ++ post)) (hi : i = pre.length)
    (hw : w.length ≤ outlen.toNat) (hout : output.length = outlen.toNat)
    (hwrap : ¬NoWrap outlen w s) (len : UInt8) :
    ∃ f, htmlspecialcharsLoop outlen input s.length i (UInt64.ofNat w.length) len
        (overwrite w output) = .error f := by
  induction s generalizing pre w i len with
  | nil => exact absurd (fun c hc => by cases hc) hwrap
  | cons c s ih =>
    by_cases hfits : (esc c).length ≤ outlen.toNat - w.length
    · obtain ⟨len₁, hstep⟩ := htmlspecialcharsLoop_fits (n := s.length) hinput hi hw
        (Nat.le_of_eq hout.symm) hfits len
      obtain ⟨-, hnext, hi'⟩ := load_next hinput hi
      rw [noWrap_cons_of_fits hfits] at hwrap
      rw [List.length_cons, hstep]
      exact ih hnext hi' (by rw [List.length_append]; omega) hwrap len₁
    · -- the sum wraps here: the symbol passes the test and is copied behind the buffer
      rw [noWrap_cons_of_not_fits hfits, Nat.not_le] at hwrap
      exact htmlspecialcharsLoop_wraps hinput hi hw hout hwrap len

/-! ### The call -/

variable {inlen : UInt64}

theorem written_longest (outlen : UInt64) (s : List UInt8) :
    Longest esc outlen.toNat s (written outlen [] s) := fitting_longest ..

/-- Behind the escaped text, the terminator is written at the index that is returned.  That is the
one behind the next place, if there is a next place. -/
theorem htmlspecialchars_run (hpos : 1 ≤ outlen.toNat) (hout : outlen.toNat ≤ output.length)
    (hlen : s.length = inlen.toNat) (hwrap : NoWrap outlen [] s) (post : List UInt8) :
    ∃ ret : UInt64, htmlspecialchars output outlen (s ++ post) inlen
        = (store (overwrite ((written outlen [] s).flatMap esc) output) ret.toNat 0).map
            (Prod.mk ret) ∧
      (((written outlen [] s).flatMap esc).length < outlen.toNat →
        ret.toNat = ((written outlen [] s).flatMap esc).length + 1) := by
  have hfits := (written_longest outlen s).fits
  obtain ⟨len, hloop⟩ : ∃ len, htmlspecialcharsLoop outlen (s ++ post) s.length 0 0 0 output = _ :=
    htmlspecialcharsLoop_eq (w := []) (show s ++ post = [] ++ (s ++ post) from rfl) rfl
      (Nat.zero_le _) hout hwrap 0
  rw [List.nil_append] at hloop
  generalize (written outlen [] s).flatMap esc = text at hfits hloop
  have hpos' : outlen > 0 := UInt64.lt_iff_toNat_lt.mpr hpos
  have hj := toNat_ofNat_length_of_le hfits
  have hlt := outlen.toNat_lt
  refine ⟨(if UInt64.ofNat text.length + 1 > outlen then UInt64.ofNat text.length - len.toUInt64
    else UInt64.ofNat text.length) + 1, ?_, ?_⟩
  · unfold htmlspecialchars
    rw [← hlen, hloop]
    simp only [bind, Except.bind, if_pos hpos']
    rfl
  · -- with room behind the text, `j` is not set back by the length of the last escape
    intro hroom
    have hsucc : (UInt64.ofNat text.length + 1).toNat = text.length + 1 := by
      rw [UInt64.toNat_add, hj]
      show (text.length + 1) % 2 ^ 64 = text.length + 1
      omega
    have hle : ¬UInt64.ofNat text.length + 1 > outlen := by
      rw [gt_iff_lt, UInt64.lt_iff_toNat_lt, hsucc]
      omega
    rw [if_neg hle, hsucc]

/-- When a sum wraps around, the call does not stay in a buffer of `outlen` bytes. -/
theorem htmlspecialchars_error (hout : output.length = outlen.toNat) (hlen : s.length = inlen.toNat)
    (hwrap : ¬NoWrap outlen [] s) (post : List UInt8) :
    ∃ f, htmlspecialchars output outlen (s ++ post) inlen = .error f := by
  obtain ⟨f, hloop⟩ : ∃ f, htmlspecialcharsLoop outlen (s ++ post) s.length 0 0 0 output
      = .error f :=
    htmlspecialcharsLoop_error (w := []) (show s ++ post = [] ++ (s ++ post) from rfl) rfl
      (Nat.zero_le _) hout hwrap 0
  refine ⟨f, ?_⟩
  unfold htmlspecialchars
  rw [← hlen, hloop]
  rfl

theorem map_store_eq_ok {f : List UInt8 → UInt64 × List UInt8} {b : List UInt8} {x : UInt8}
    {r : UInt64 × List UInt8} (h : (store b i x).map f = .ok r) :
    i < b.length ∧ f (b.set i x) = r := by
  unfold store at h
  by_cases hi : i < b.length
  · rw [if_pos hi] at h
    exact ⟨hi, Except.ok.inj h⟩
  · rw [if_neg hi] at h
    cases h

/-- A call that stays in the first `outlen` bytes. -/
theorem within_eq {ret : UInt64} {output' : List UInt8} (hpos : 1 ≤ outlen.toNat)
    (hout : outlen.toNat ≤ output.length) (hlen : s.length = inlen.toNat)
    (h : Within outlen.toNat (fun b => htmlspecialchars b outlen (s ++ post) inlen) output ret
      output') :
    NoWrap outlen [] s ∧ ret.toNat < outlen.toNat ∧
      output' = (overwrite ((written outlen [] s).flatMap esc) output).set ret.toNat 0 ∧
      (((written outlen [] s).flatMap esc).length < outlen.toNat →
        ret.toNat = ((written outlen [] s).flatMap esc).length + 1) := by
  have hfits := (written_longest outlen s).fits
  have htake : (output.take outlen.toNat).length = outlen.toNat := List.length_take_of_le hout
  -- a sum that wraps would run out of the buffer cut down to `outlen` bytes
  have hwrap : NoWrap outlen [] s := by
    by_contra hwrap
    obtain ⟨f, herror⟩ := htmlspecialchars_error htake hlen hwrap post
    have hrun := h.run_take
    rw [herror] at hrun
    cases hrun
  have hrun := h.run
  have hrunTake := h.run_take
  obtain ⟨ret₁, heq, hret⟩ := htmlspecialchars_run hpos hout hlen hwrap post
  obtain ⟨ret₂, heqTake, -⟩ :=
    htmlspecialchars_run hpos (Nat.le_of_eq htake.symm) hlen hwrap post
  rw [heq] at hrun
  rw [heqTake] at hrunTake
  obtain ⟨-, hrun⟩ := map_store_eq_ok hrun
  obtain ⟨hlt, hrunTake⟩ := map_store_eq_ok hrunTake
  cases hrun
  rw [length_overwrite (by rw [htake]; exact hfits), htake] at hlt
  rw [(Prod.mk.inj hrunTake).1] at hlt
  exact ⟨hwrap, hlt, rfl, hret⟩

/-- With room for two bytes behind the text, the call stays in the first `outlen` bytes. -/
theorem exists_within (hpos : 1 ≤ outlen.toNat) (hout : outlen.toNat ≤ output.length)
    (hlen : s.length = inlen.toNat) (hwrap : NoWrap outlen [] s)
    (hroom : ((written outlen [] s).flatMap esc).length + 2 ≤ outlen.toNat) (post : List UInt8) :
    ∃ ret : UInt64, Within outlen.toNat (fun b => htmlspecialchars b outlen (s ++ post) inlen)
        output ret ((overwrite ((written outlen [] s).flatMap esc) output).set ret.toNat 0) ∧
      ret.toNat = ((written outlen [] s).flatMap esc).length + 1 := by
  have htake : (output.take outlen.toNat).length = outlen.toNat := List.length_take_of_le hout
  obtain ⟨ret, hrun, hret⟩ := htmlspecialchars_run hpos hout hlen hwrap post
  obtain ⟨ret', hrunTake, hret'⟩ :=
    htmlspecialchars_run hpos (Nat.le_of_eq htake.symm) hlen hwrap post
  generalize (written outlen [] s).flatMap esc = text at hroom hrun hret hrunTake hret' ⊢
  have hindex : ret.toNat = text.length + 1 := hret (by omega)
  obtain rfl : ret' = ret := UInt64.toNat_inj.mp (by rw [hindex, hret' (by omega)])
  refine ⟨ret', ⟨?_, ?_, ?_⟩, hindex⟩
  · rw [hrun, store_of_lt (by rw [length_overwrite (by omega)]; omega)]
    rfl
  · rw [hrunTake, store_of_lt (by rw [length_overwrite (by omega)]; omega), List.take_set,
      take_overwrite (by omega)]
    rfl
  · rw [List.drop_set_of_lt (by omega), drop_overwrite (by omega)]

/-- What the tests sample: the longest prefix of the input whose escape leaves room for the
terminator is written with the terminator behind it, and no byte beyond `outlen` is touched. -/
def Contract (outlen : UInt64) (run : List UInt8 → Except Fault (UInt64 × List UInt8))
    (output input : List UInt8) : Prop :=
  ∃ p ret output', Longest esc (outlen.toNat - 1) input p ∧
    Within outlen.toNat run output ret output' ∧ ret.toNat = (p.flatMap esc).length + 1 ∧
    output'.take (ret.toNat - 1) = p.flatMap esc ∧ output'[ret.toNat - 1]? = some 0

/-- Behind the escape of `p`, the text goes on with an entity. -/
theorem getElem?_entity {p q t : List UInt8} {x : UInt8} (heq : q = p ++ x :: t)
    (hx : (esc x).length ≠ 1) :
    (overwrite (q.flatMap esc) output)[(p.flatMap esc).length]? = some '&'.toUInt8 := by
  have htext : q.flatMap esc = p.flatMap esc ++ (esc x ++ t.flatMap esc) := by
    rw [heq, List.flatMap_append, List.flatMap_cons]
  rcases esc_cases x with hplain | ⟨t', hentity⟩
  · rw [hplain] at hx
    exact absurd rfl hx
  · rw [htext, hentity, overwrite, List.append_assoc, List.getElem?_append_right (Nat.le_refl _),
      Nat.sub_self]
    rfl

/-- The contract is kept if and only if there is room for two bytes behind what fits, the first of
these is zero already, and no sum wraps around. -/
theorem htmlspecialchars_contract_iff {q : List UInt8} (hpos : 1 ≤ outlen.toNat)
    (hout : outlen.toNat ≤ output.length) (hlen : s.length = inlen.toNat)
    (hq : Longest esc outlen.toNat s q) (post : List UInt8) :
    Contract outlen (fun b => htmlspecialchars b outlen (s ++ post) inlen) output s ↔
      (q.flatMap esc).length + 2 ≤ outlen.toNat ∧ output[(q.flatMap esc).length]? = some 0 ∧
        ∀ c, s[q.length]? = some c → (q.flatMap esc).length + (esc c).length ≤ 2 ^ 64 := by
  obtain rfl := hq.unique (written_longest outlen s)
  constructor
  · rintro ⟨p, ret, output', hp, hwithin, hret, -, hnul⟩
    obtain ⟨hwrap, hlt, rfl, hnext⟩ := within_eq hpos hout hlen hwithin
    rw [hret, Nat.add_sub_cancel] at hnul
    rw [hret] at hlt
    rcases hp.eq_or_exists_next hq (Nat.sub_le _ 1) with rfl | ⟨x, t, heq, hx⟩
    · refine ⟨hlt, ?_, hwrap⟩
      rw [List.getElem?_set_ne (by omega), getElem?_overwrite_of_le (Nat.le_refl _)] at hnul
      exact hnul
    · -- the first byte of an entity is where the terminator should be
      exfalso
      rw [List.getElem?_set_ne (by omega), getElem?_entity heq (by omega)] at hnul
      exact absurd (Option.some.inj hnul) (by decide)
  · rintro ⟨hroom, hnul, hwrap⟩
    have hlongest : Longest esc (outlen.toNat - 1) s (written outlen [] s) :=
      hq.mono (Nat.sub_le _ 1) (by omega)
    obtain ⟨ret, hwithin, hret⟩ := exists_within hpos hout hlen hwrap hroom post
    refine ⟨_, ret, _, hlongest, hwithin, hret, ?_, ?_⟩
    · rw [hret, Nat.add_sub_cancel, List.take_set_of_le (Nat.le_succ _)]
      exact List.take_left
    · rw [hret, Nat.add_sub_cancel, List.getElem?_set_ne (by omega),
        getElem?_overwrite_of_le (Nat.le_refl _)]
      exact hnul

/-- `a<b&c` is cut off in front of the `&`, whose entity takes five bytes. -/
theorem htmlspecialchars_contract_iff_cut :
    Contract 9 (fun b => htmlspecialchars b 9 ([0x61, 0x3c, 0x62, 0x26, 0x63] ++ []) 5)
      [0xff, 0xff, 0xff, 0xff, 0xff, 0xff, 0, 0xff, 0xff, 0xff] [0x61, 0x3c, 0x62, 0x26, 0x63] := by
  refine (htmlspecialchars_contract_iff (by decide) (by decide) rfl (written_longest 9 _) []).mpr
    ⟨by decide, rfl, fun c hc => ?_⟩
  obtain rfl : 0x26 = c := Option.some.inj hc
  decide

/-- `a` leaves a byte in front of the terminator as it was, and with room for two bytes, the
terminator is written behind the end of the buffer. -/
theorem htmlspecialchars_breaks_contract :
    htmlspecialchars [0xff, 0xff, 0xff, 0xff] 4 [0x61] 1 = .ok (2, [0x61, 0xff, 0, 0xff]) ∧
      htmlspecialchars [0, 0] 2 [0x61] 1 = .error (.write 2) ∧
      ¬Contract 4 (fun b => htmlspecialchars b 4 [0x61] 1) [0xff, 0xff, 0xff, 0xff] [0x61] ∧
      ¬Contract 2 (fun b => htmlspecialchars b 2 [0x61] 1) [0, 0, 0] [0x61] := by
  refine ⟨rfl, rfl, ?_, ?_⟩
  · rintro ⟨p, ret, output', -, hwithin, -, -, hnul⟩
    have hrun : Except.ok (2, [0x61, 0xff, 0, 0xff]) = Except.ok (ret, output') := hwithin.run
    cases hrun
    exact absurd hnul (by decide)
  · rintro ⟨p, ret, output', -, hwithin, -⟩
    have hrun : Except.error (Fault.write 2) = Except.ok (ret, output'.take 2) := hwithin.run_take
    cases hrun

end Bluetea.OldString
