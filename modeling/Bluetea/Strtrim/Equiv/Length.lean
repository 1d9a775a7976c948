import Bluetea.Strtrim.Equiv.Call

/-!
# Trimming by length

The trimmers are called with lengths that end in the middle of a string too.  The byte behind the
text does not matter then, unless the text is whitespace only: with a byte there that is neither
whitespace nor the terminator, the scan from the back has nothing to stop it.  With no text at all,
nothing is written, so the terminator has to be there (`trims_iff`).
-/

namespace Bluetea.Strtrim

open Buffer Trimming

/-- The trimmer `f` keeps to the first `len` bytes and the one behind them, and returns a pointer
to these bytes without the whitespace around them. -/
def Trims (f : List UInt8 → ℕ → UInt64 → Except Fault (ℕ × List UInt8)) (buf : List UInt8)
    (len : UInt64) : Prop :=
  ∃ ret buf', Within (len.toNat + 1) (fun b => f b 0 len) buf ret buf' ∧
    ∃ s : CStr, s.bytes = core isWs (buf.take len.toNat) ∧ s.At buf' ret

/-- One of the first `len` bytes is not whitespace, or the byte behind them is the terminator, or
there are some and the byte behind them is whitespace. -/
def EndsAt (buf : List UInt8) (len : UInt64) : Prop :=
  (∃ x ∈ buf.take len.toNat, ¬isWs x) ∨ buf[len.toNat]? = some 0 ∨
    (len ≠ 0 ∧ ∃ x, buf[len.toNat]? = some x ∧ isWs x)

variable {text post buf : List UInt8} {c : UInt8} {len : UInt64}

theorem endsAt_iff (hlen : text.length = len.toNat) (htext : buf.take len.toNat = text)
    (hc : buf[len.toNat]? = some c) : EndsAt buf len ↔ Ends text c := by
  have hcore : core isWs text ≠ [] ↔ ∃ x ∈ text, ¬isWs x := by
    rw [Ne, core_eq_nil_iff]
    push Not
    rfl
  have hws : (∃ x, some c = some x ∧ isWs x) ↔ isWs c := by
    constructor
    · rintro ⟨x, hx, h⟩
      rwa [Option.some.inj hx]
    · exact fun h => ⟨c, rfl, h⟩
  rw [EndsAt, Ends, htext, hc, hcore, hws, Ne, len_eq_zero_iff hlen, Option.some_inj]

variable {f : List UInt8 → ℕ → UInt64 → Except Fault (ℕ × List UInt8)}

theorem not_trims_of_error {e : Fault} (h : f buf 0 len = .error e) : ¬Trims f buf len := by
  rintro ⟨ret, buf', hwithin, -⟩
  cases h.symm.trans hwithin.run

/-- A buffer that begins with a byte other than the terminator is not the empty string. -/
theorem not_trims_of_nil (hc : c ≠ 0) (htext : buf.take len.toNat = []) (hbuf : buf = c :: post)
    (h : f buf 0 len = .ok (0, buf)) : ¬Trims f buf len := by
  rintro ⟨ret, buf', hwithin, s, hs, hat⟩
  obtain ⟨rfl, rfl⟩ := Prod.mk.inj (Except.ok.inj (h.symm.trans hwithin.run))
  obtain ⟨rest, hrest⟩ := hat
  rw [htext] at hs
  have hnil : s.bytes = [] := hs
  rw [List.drop_zero, hbuf, hnil, List.nil_append] at hrest
  exact hc (List.cons.inj hrest).1

/-- Without an end, an empty text is left as it is. -/
theorem strtriml_nil (hlen : ([] : List UInt8).length = len.toNat) (buf : List UInt8) :
    strtriml buf 0 len = .ok (0, buf) ∧ strtrimlMove buf 0 len = .ok (0, buf) := by
  have hzero : len = 0 := (len_eq_zero_iff hlen).mpr rfl
  rw [strtriml, strtrimlMove, if_pos hzero, if_pos hzero]
  exact ⟨rfl, rfl⟩

/-- Without an end, the scan from the back leaves the buffer. -/
theorem strtriml_before (h : ¬Ends text c) (hlen : text.length = len.toNat) (htext : text ≠ [])
    (post : List UInt8) :
    strtriml (text ++ c :: post) 0 len = .error .before ∧
      strtrimlMove (text ++ c :: post) 0 len = .error .before := by
  obtain ⟨hcore, hc, hend⟩ : core isWs text = [] ∧ c ≠ 0 ∧ ¬(text ≠ [] ∧ isWs c) := by
    simpa only [Ends, not_or, not_not] using h
  have hnot : ¬isWs c := fun hws => hend ⟨htext, hws⟩
  have hzero : len ≠ 0 := fun h0 => htext ((len_eq_zero_iff hlen).mp h0)
  obtain ⟨hskip, hload⟩ := scan_of_core_eq_nil hcore hlen [] post c
  -- all white space up to a byte that is no terminator: the scan from the back leaves the buffer
  have hback := skipBack_before (core_eq_nil_iff.mp hcore) (c :: post)
  rw [List.nil_append, List.length_nil, Nat.zero_add] at hskip hload
  rw [hlen] at hback
  constructor
  · rw [strtriml, if_neg hzero]
    simp only [hskip, hload, Nat.zero_add, hback, bind, Except.bind, if_neg hnot, hc, false_and,
      if_false]
  · rw [strtrimlMove, if_neg hzero]
    simp only [hskip, hload, Nat.zero_add, hback, bind, Except.bind, if_neg hnot, hc, false_and,
      if_false]

/-- The two trimmers trim if and only if there is an end. -/
theorem trims_iff (hlen : len.toNat < buf.length) (hnul : ∀ x ∈ buf.take len.toNat, x ≠ 0) :
    (Trims strtriml buf len ↔ EndsAt buf len) ∧ (Trims strtrimlMove buf len ↔ EndsAt buf len) := by
  obtain ⟨htlen, c, post, hc, hbuf⟩ := exists_eq_take_append hlen
  generalize htext : buf.take len.toNat = text at htlen hbuf hnul
  rw [endsAt_iff htlen htext hc]
  let s : CStr := ⟨core isWs text, fun x hx => hnul x (mem_of_mem_core hx)⟩
  have hs : s.bytes = core isWs (buf.take len.toNat) := by rw [htext]
  -- with an end, both calls are known; without one, both go wrong in the same way
  by_cases hends : Ends text c
  · have hat := at_strtriml (s := s) rfl [] post c
    have hatMove := at_strtrimlMove (s := s) rfl [] (text ++ c :: post)
    have hwithin := within_strtriml hends htlen post
    have hwithinMove := within_strtrimlMove hends htlen post
    rw [← hbuf] at hwithin hwithinMove
    rw [List.nil_append, ← hbuf] at hat hatMove
    exact ⟨⟨fun _ => hends, fun _ => ⟨_, _, hwithin, s, hs, hat⟩⟩,
      ⟨fun _ => hends, fun _ => ⟨_, _, hwithinMove, s, hs, hatMove⟩⟩⟩
  · have hcore : core isWs text = [] := by
      by_contra h
      exact hends (Or.inl h)
    by_cases hnil : text = []
    · subst hnil
      obtain ⟨hrun, hrunMove⟩ := strtriml_nil htlen buf
      have hne : c ≠ 0 := fun h0 => hends (Or.inr (Or.inl h0))
      exact ⟨iff_of_false (not_trims_of_nil hne htext hbuf hrun) hends,
        iff_of_false (not_trims_of_nil hne htext hbuf hrunMove) hends⟩
    · obtain ⟨hrun, hrunMove⟩ := strtriml_before hends htlen hnil post
      rw [← hbuf] at hrun hrunMove
      exact ⟨iff_of_false (not_trims_of_error hrun) hends,
        iff_of_false (not_trims_of_error hrunMove) hends⟩

/-- Three bytes of `" a b"`, with a letter behind them. -/
theorem trims_iff_sample :
    (Trims strtriml [0x20, 0x61, 0x20, 0x62, 0] 3 ↔ EndsAt [0x20, 0x61, 0x20, 0x62, 0] 3) ∧
      (Trims strtrimlMove [0x20, 0x61, 0x20, 0x62, 0] 3 ↔ EndsAt [0x20, 0x61, 0x20, 0x62, 0] 3) :=
  trims_iff (by decide) (CStr.ne_zero_of_all rfl)

/-- Trimmed to two spaces, `"  x"` has nothing to stop the scan from the back; trimmed to no byte at
all, `"x"` stays as it is. -/
theorem spaces_not_trimmed :
    (2 : UInt64).toNat < [0x20, 0x20, 0x78, (0 : UInt8)].length ∧
      (∀ x ∈ [0x20, 0x20, 0x78, (0 : UInt8)].take (2 : UInt64).toNat, x ≠ 0) ∧
      ¬Trims strtriml [0x20, 0x20, 0x78, 0] 2 ∧ ¬Trims strtrimlMove [0x20, 0x20, 0x78, 0] 2 ∧
      ¬Trims strtriml [0x78, 0] 0 ∧ ¬Trims strtrimlMove [0x78, 0] 0 := by
  refine ⟨by decide, CStr.ne_zero_of_all rfl, not_trims_of_error rfl, not_trims_of_error rfl,
    ?_, ?_⟩
  · exact not_trims_of_nil (c := 0x78) (by decide) rfl rfl rfl
  · exact not_trims_of_nil (c := 0x78) (by decide) rfl rfl rfl

end Bluetea.Strtrim
