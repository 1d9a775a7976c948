import Bluetea.Strtrim.Equiv.Call

/-!
# What the trimmers leave

With the terminator behind the text, there is always an end for the scans.  The only byte that
`strtriml` writes is the terminator behind the core, and a text without a core has it already.
What is left has no whitespace at its ends, so there is nothing to do for a second call.
-/

namespace Bluetea.Strtrim

open Buffer Trimming

/-- `b` is the index of the last byte among the first `len` that is not whitespace. -/
structure IsLast (buf : List UInt8) (len b : ℕ) : Prop where
  lt : b < len
  not_isWs : ∃ x, buf[b]? = some x ∧ ¬isWs x
  isWs : ∀ i x, b < i → i < len → buf[i]? = some x → isWs x

variable {pre text post buf : List UInt8} {c : UInt8} {len : UInt64}

/-- The call at a C string. -/
theorem strtrim_eq (hlen : text.length = len.toNat) (htext : ∀ x ∈ text, x ≠ 0)
    (pre post : List UInt8) :
    strtrim (pre ++ (text ++ 0 :: post)) pre.length
      = strtriml (pre ++ (text ++ 0 :: post)) pre.length len := by
  simp only [strtrim, strlen_append pre post htext, bind, Except.bind, hlen, UInt64.ofNat_toNat]

theorem strtrimMove_eq (hlen : text.length = len.toNat) (htext : ∀ x ∈ text, x ≠ 0)
    (pre post : List UInt8) :
    strtrimMove (pre ++ (text ++ 0 :: post)) pre.length
      = strtrimlMove (pre ++ (text ++ 0 :: post)) pre.length len := by
  simp only [strtrimMove, strlen_append pre post htext, bind, Except.bind, hlen,
    UInt64.ofNat_toNat]

/-- The end of the core is the last byte that is not whitespace. -/
theorem exists_isLast (hcore : core isWs text ≠ []) (post : List UInt8) :
    ∃ b, IsLast (text ++ post) text.length b ∧
      b + 1 = (lead isWs text).length + (core isWs text).length := by
  have hlength := length_eq isWs text
  obtain ⟨t, x, hx, hxws⟩ := exists_concat_of_core_ne_nil hcore
  have hclen : (core isWs text).length = t.length + 1 := by
    rw [hx, List.length_append, List.length_singleton]
  have hbuf : text ++ post = (lead isWs text ++ t) ++ x :: (trail isWs text ++ post) := by
    conv_lhs => rw [← lead_append isWs text]
    rw [hx]
    simp only [List.append_assoc, List.cons_append, List.nil_append]
  refine ⟨(lead isWs text ++ t).length, ⟨?_, ⟨x, ?_, hxws⟩, ?_⟩, ?_⟩
  · rw [List.length_append]
    omega
  · rw [hbuf]
    exact getElem?_append_cons ..
  · -- whatever follows the last letter of the core within the text is white space
    intro i y hi hlt hy
    have htrail : (trail isWs text)[i - (lead isWs text ++ t).length - 1]? = some y := by
      rw [List.length_append] at hi ⊢
      rw [hbuf, List.getElem?_append_right (by rw [List.length_append]; omega),
        List.getElem?_cons, if_neg (by rw [List.length_append]; omega),
        List.getElem?_append_left (by rw [List.length_append]; omega), List.length_append] at hy
      exact hy
    exact of_mem_trail (List.mem_of_getElem? htrail)
  · rw [List.length_append]
    omega

/-- A text with the core of `text` and the terminator behind it is trimmed already. -/
theorem strtriml_core (hlen : (core isWs text).length = len.toNat) (pre post : List UInt8) :
    strtriml (pre ++ (core isWs text ++ 0 :: post)) pre.length len
      = .ok (pre.length, pre ++ (core isWs text ++ 0 :: post)) := by
  have hcall := strtriml_eq (c := 0) (Or.inr (Or.inl rfl)) hlen pre post
  have hset := set_append_cons (pre ++ core isWs text) post 0 0
  rw [List.append_assoc, List.length_append] at hset
  rw [hcall, front, lead_core, core_core, List.length_nil, Nat.add_zero, hset]

/-- A C string is trimmed once and for all. -/
theorem strtrim_twice (hlen : text.length = len.toNat) (htext : ∀ x ∈ text, x ≠ 0)
    (pre post : List UInt8) (c : UInt8) :
    strtrim ((pre ++ (text ++ c :: post)).set (front pre text + (core isWs text).length) 0)
        (front pre text)
      = .ok (front pre text,
          (pre ++ (text ++ c :: post)).set (front pre text + (core isWs text).length) 0) := by
  have hlength := length_eq isWs text
  have hlt := len.toNat_lt
  have hclen : (core isWs text).length = (UInt64.ofNat (core isWs text).length).toNat := by
    rw [UInt64.toNat_ofNat', Nat.mod_eq_of_lt]
    omega
  obtain ⟨rest, hset⟩ := exists_set_eq pre text post c
  rw [hset, front_eq, strtrim_eq hclen (fun x hx => htext x (mem_of_mem_core hx))]
  exact strtriml_core hclen (pre ++ lead isWs text) rest

/-- `strtriml` writes nothing but the terminator behind the core, and `strtrim` does the same to a
C string, once and for all. -/
theorem strtriml_exact (hnul : buf[len.toNat]? = some 0) :
    ∃ a buf', a = ((buf.take len.toNat).takeWhile isWs).length ∧
      Within (len.toNat + 1) (fun b => strtriml b 0 len) buf a buf' ∧
      (a = len.toNat → buf' = buf) ∧
      (a ≠ len.toNat → ∃ b, IsLast buf len.toNat b ∧ buf' = buf.set (b + 1) 0 ∧
        (buf'.drop a).take (b + 1 - a) = core isWs (buf.take len.toNat)) ∧
      ((∀ x ∈ buf.take len.toNat, x ≠ 0) →
        strlen buf 0 = .ok len ∧ strtrim buf 0 = strtriml buf 0 len ∧
          strtrim buf' a = .ok (a, buf')) := by
  obtain ⟨hlt, -⟩ := List.getElem?_eq_some_iff.mp hnul
  obtain ⟨hlen, c, post, hc, hbuf⟩ := exists_eq_take_append hlt
  obtain rfl : c = 0 := Option.some.inj (hc.symm.trans hnul)
  generalize buf.take len.toNat = text at hlen hbuf ⊢
  subst hbuf
  have hlength := length_eq isWs text
  have hfront : front [] text = (lead isWs text).length := Nat.zero_add _
  have hwithin := within_strtriml (c := 0) (Or.inr (Or.inl rfl)) hlen post
  obtain ⟨rest, hset⟩ := exists_set_eq [] text post 0
  simp only [List.nil_append] at hset
  rw [hfront] at hwithin hset
  refine ⟨(lead isWs text).length, _, rfl, hwithin, ?_, ?_, ?_⟩
  · intro ha
    -- only whitespace: the terminator is written over the one that is there
    have hcore : (core isWs text).length = 0 := by omega
    rw [hcore, Nat.add_zero, ha, ← hlen, set_append_cons]
  · intro ha
    have hcore : core isWs text ≠ [] := fun h => ha (by rw [lead_of_core_eq_nil h, hlen])
    obtain ⟨b, hlast, hb⟩ := exists_isLast hcore (0 :: post)
    rw [hlen] at hlast
    refine ⟨b, hlast, by rw [hb], ?_⟩
    rw [hset, hb, Nat.add_sub_cancel_left, List.drop_left, List.take_left]
  · intro htext
    refine ⟨?_, strtrim_eq hlen htext [] post, ?_⟩
    · have hstrlen := strlen_append [] post htext
      rwa [hlen, UInt64.ofNat_toNat] at hstrlen
    · -- the string that is left is the core of the text, so the second call finds nothing to do
      have htwice := strtrim_twice hlen htext [] post 0
      rwa [hfront, List.nil_append] at htwice

/-- `" a "` -/
theorem strtriml_exact_sample :
    ∃ a buf', a = (([0x20, 0x61, 0x20, 0].take (3 : UInt64).toNat).takeWhile isWs).length ∧
      Within ((3 : UInt64).toNat + 1) (fun b => strtriml b 0 3) [0x20, 0x61, 0x20, 0] a buf' ∧
      strtrim buf' a = .ok (a, buf') := by
  obtain ⟨a, buf', ha, hwithin, -, -, hstr⟩ :=
    strtriml_exact (show [0x20, 0x61, 0x20, (0 : UInt8)][(3 : UInt64).toNat]? = some 0 from rfl)
  exact ⟨a, buf', ha, hwithin, (hstr (CStr.ne_zero_of_all rfl)).2.2⟩

/-! ### The moving trimmer

The core of a C string has no NUL either, so it is the C string at the pointer that `strtriml` returns,
and at the beginning of the buffer after `strtriml_move`. -/

/-- `strtriml_move` returns the beginning of the buffer and leaves there the string that `strtriml`
returns, and what is behind the terminator of that string as it was. -/
theorem strtrimlMove_agrees {buf : List UInt8} {len : UInt64} (hnul : buf[len.toNat]? = some 0)
    (hno : ∀ x ∈ buf.take len.toNat, x ≠ 0) :
    ∃ (s : CStr) (ret : ℕ) (buf₁ buf₂ : List UInt8),
      strtriml buf 0 len = .ok (ret, buf₁) ∧ s.At buf₁ ret ∧
      Within (len.toNat + 1) (fun b => strtrimlMove b 0 len) buf 0 buf₂ ∧ s.At buf₂ 0 ∧
      buf₂.drop (s.strlen + 1) = buf.drop (s.strlen + 1) := by
  obtain ⟨hlt, -⟩ := List.getElem?_eq_some_iff.mp hnul
  obtain ⟨hlen, c, post, hc, hbuf⟩ := exists_eq_take_append hlt
  obtain rfl : c = 0 := Option.some.inj (hc.symm.trans hnul)
  generalize buf.take len.toNat = text at hno hlen hbuf
  subst hbuf
  -- what both leave is the core of the text, where it was or moved to the front
  let s : CStr := ⟨core isWs text, fun x hx => hno x (mem_of_mem_core hx)⟩
  have hends : Ends text 0 := Or.inr (Or.inl rfl)
  refine ⟨s, _, _, _, strtriml_eq hends hlen [] post, at_strtriml rfl [] post 0,
    within_strtrimlMove hends hlen post, at_strtrimlMove rfl [] _, drop_overwrite ?_⟩
  rw [List.length_append, List.length_singleton]
  exact Nat.le_refl _

/-- `" abc "`: the text overlaps the place it is moved to. -/
theorem strtrimlMove_agrees_overlap :
    ∃ (s : CStr) (ret : ℕ) (buf₁ buf₂ : List UInt8),
      strtriml [0x20, 0x61, 0x62, 0x63, 0x20, 0] 0 5 = .ok (ret, buf₁) ∧ s.At buf₁ ret ∧
      Within ((5 : UInt64).toNat + 1) (fun b => strtrimlMove b 0 5)
        [0x20, 0x61, 0x62, 0x63, 0x20, 0] 0 buf₂ ∧ s.At buf₂ 0 ∧
      buf₂.drop (s.strlen + 1) = [0x20, 0x61, 0x62, 0x63, 0x20, (0 : UInt8)].drop (s.strlen + 1) :=
  strtrimlMove_agrees rfl (CStr.ne_zero_of_all rfl)

end Bluetea.Strtrim
