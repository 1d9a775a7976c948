import Bluetea.CString.Basic
import Bluetea.Strtrim.Equiv.Scan

/-!
# What the trimmers do

Both trimmers do what they are for when the scan from the front has found a byte that is not
whitespace, or else ends at a byte behind the text that it takes for the terminator (`Ends`).  The
one returns the place of the core and writes a terminator behind it (`strtriml_eq`), the other
moves it (`strtrimlMove_eq`).
-/

namespace Bluetea.Strtrim

open Buffer Trimming

variable {pre text post : List UInt8} {c : UInt8} {len : UInt64}

/-- The scans find an end: a byte of the text that is not whitespace, or the terminator behind the
text, or whitespace there, which the scan from the front replaces by the terminator.  That scan
takes place only if the text is not empty. -/
def Ends (text : List UInt8) (c : UInt8) : Prop :=
  core isWs text ≠ [] ∨ c = 0 ∨ (text ≠ [] ∧ isWs c)

theorem len_eq_zero_iff (hlen : text.length = len.toNat) : len = 0 ↔ text = [] := by
  rw [← List.length_eq_zero_iff, hlen, ← UInt64.toNat_inj]
  rfl

theorem set_append_cons (l post : List UInt8) (c x : UInt8) :
    (l ++ c :: post).set l.length x = l ++ x :: post := by
  rw [List.set_append_right _ _ (Nat.le_refl _), Nat.sub_self, List.set_cons_zero]

theorem front_add_le (hlen : text.length = len.toNat) (pre : List UInt8) :
    front pre text + (core isWs text).length ≤ pre.length + len.toNat := by
  have hlength := length_eq isWs text
  rw [front]
  omega

theorem lt_length (hlen : text.length = len.toNat) (pre post : List UInt8) (c : UInt8) :
    pre.length + len.toNat < (pre ++ (text ++ c :: post)).length := by
  rw [List.length_append, List.length_append, List.length_cons]
  omega

theorem len_ne_zero_of_core_ne_nil (hcore : core isWs text ≠ [])
    (hlen : text.length = len.toNat) : len ≠ 0 := by
  intro h0
  rw [(len_eq_zero_iff hlen).mp h0] at hcore
  exact hcore rfl

/-- Without a core, the terminator is written behind the text, unless it is there. -/
theorem strtriml_of_core_eq_nil (hcore : core isWs text = []) (h : c = 0 ∨ (text ≠ [] ∧ isWs c))
    (hlen : text.length = len.toNat) (pre post : List UInt8) :
    strtriml (pre ++ (text ++ c :: post)) pre.length len
      = .ok (pre.length + len.toNat,
          (pre ++ (text ++ c :: post)).set (pre.length + len.toNat) 0) := by
  obtain ⟨hskip, hload⟩ := scan_of_core_eq_nil hcore hlen pre post c
  rcases h with rfl | ⟨htext, hc⟩
  · have hset : (pre ++ (text ++ 0 :: post)).set (pre.length + len.toNat) 0
        = pre ++ (text ++ 0 :: post) := by
      rw [← List.append_assoc, ← hlen, ← List.length_append, set_append_cons]
    rw [hset]
    by_cases hzero : len = 0
    · subst hzero
      rfl
    · rw [strtriml, if_neg hzero]
      simp only [hskip, hload, bind, Except.bind]
      rfl
  · have hzero : len ≠ 0 := fun h0 => htext ((len_eq_zero_iff hlen).mp h0)
    rw [strtriml, if_neg hzero]
    simp only [hskip, bind, Except.bind, if_pos hc, store_of_lt (lt_length hlen pre post c)]
    rfl

theorem strtriml_of_core_ne_nil (hcore : core isWs text ≠ []) (hlen : text.length = len.toNat)
    (pre post : List UInt8) (c : UInt8) :
    strtriml (pre ++ (text ++ c :: post)) pre.length len
      = .ok (front pre text,
          (pre ++ (text ++ c :: post)).set (front pre text + (core isWs text).length) 0) := by
  have hlt := Nat.lt_of_le_of_lt (front_add_le hlen pre) (lt_length hlen pre post c)
  obtain ⟨hskip, ⟨x, hload⟩, hne, hback⟩ := scan_of_core_ne_nil hcore hlen pre post c
  rw [strtriml, if_neg (len_ne_zero_of_core_ne_nil hcore hlen)]
  simp only [hskip, hload, hback, bind, Except.bind, Bool.false_eq_true, if_false,
    if_neg (fun hand : x = 0 ∧ front pre text = pre.length + len.toNat => hne hand.2),
    store_of_lt hlt]
  rfl

theorem strtriml_eq (h : Ends text c) (hlen : text.length = len.toNat) (pre post : List UInt8) :
    strtriml (pre ++ (text ++ c :: post)) pre.length len
      = .ok (front pre text,
          (pre ++ (text ++ c :: post)).set (front pre text + (core isWs text).length) 0) := by
  by_cases hcore : core isWs text = []
  · have hfront : front pre text = pre.length + len.toNat := by
      rw [front, lead_of_core_eq_nil hcore, hlen]
    rw [strtriml_of_core_eq_nil hcore (h.resolve_left (not_not.mpr hcore)) hlen, hfront, hcore]
    rfl
  · exact strtriml_of_core_ne_nil hcore hlen pre post c

theorem set_append_overwrite {w o : List UInt8} (h : w.length < o.length) (pre : List UInt8)
    (x : UInt8) :
    (pre ++ overwrite w o).set (pre.length + w.length) x = pre ++ overwrite (w ++ [x]) o := by
  have hstore := store_overwrite h x
  rw [Buffer.store, length_overwrite (Nat.le_of_lt h), if_pos h] at hstore
  rw [List.set_append_right _ _ (Nat.le_add_right ..), Nat.add_sub_cancel_left,
    Except.ok.inj hstore]

/-- `end - str + 1` is the length of the core. -/
theorem trimmedLen_toNat (hlen : text.length = len.toNat) (pre : List UInt8) :
    (UInt64.ofNat (front pre text + (core isWs text).length)
      - UInt64.ofNat (front pre text)).toNat = (core isWs text).length := by
  have hlength := length_eq isWs text
  have hlt := len.toNat_lt
  rw [UInt64.ofNat_add, UInt64.add_comm, UInt64.add_sub_cancel, UInt64.toNat_ofNat',
    Nat.mod_eq_of_lt]
  omega

/-- The core is moved to the beginning, if it is not there. -/
theorem move_core (pre text post : List UInt8) (c : UInt8) :
    (if pre.length ≠ front pre text then
        memmove (pre ++ (text ++ c :: post)) pre.length (front pre text) (core isWs text).length
      else pure (pre ++ (text ++ c :: post)))
      = .ok (pre ++ overwrite (core isWs text) (text ++ c :: post)) := by
  have htext : text ++ c :: post
      = lead isWs text ++ (core isWs text ++ (trail isWs text ++ c :: post)) := by
    conv_lhs => rw [← lead_append isWs text]
    simp only [List.append_assoc]
  by_cases hlead : lead isWs text = []
  · have hfront : front pre text = pre.length := by
      rw [front, hlead, List.length_nil, Nat.add_zero]
    rw [if_neg (fun hne => hne hfront.symm), htext, hlead, List.nil_append, overwrite,
      List.drop_left]
    rfl
  · have hpos := List.length_pos_of_ne_nil hlead
    have hne : pre.length ≠ front pre text := by
      rw [front]
      omega
    rw [if_pos hne, htext, memmove, front, memmove_down]
    rfl

/-- Without a core, the terminator is written at the beginning, unless it is there. -/
theorem strtrimlMove_of_core_eq_nil (hcore : core isWs text = [])
    (h : c = 0 ∨ (text ≠ [] ∧ isWs c)) (hlen : text.length = len.toNat) (pre post : List UInt8) :
    strtrimlMove (pre ++ (text ++ c :: post)) pre.length len
      = .ok (pre.length, pre ++ overwrite [0] (text ++ c :: post)) := by
  have hlt := lt_length hlen pre post c
  have hstore : store (pre ++ (text ++ c :: post)) pre.length 0
      = .ok (pre ++ overwrite [0] (text ++ c :: post)) := by
    have hroom : ([] : List UInt8).length < (text ++ c :: post).length := by
      rw [List.length_append, List.length_cons]
      exact Nat.succ_pos _
    rw [store_of_lt (by omega)]
    exact congrArg Except.ok (set_append_overwrite hroom pre 0)
  obtain ⟨hskip, hload⟩ := scan_of_core_eq_nil hcore hlen pre post c
  rcases h with rfl | ⟨htext, hc⟩
  · by_cases hzero : len = 0
    · -- nothing is written, the terminator is at the beginning
      rw [strtrimlMove, if_pos hzero, (len_eq_zero_iff hlen).mp hzero]
      rfl
    · have hnot : ¬isWs 0 := Bool.false_ne_true
      rw [strtrimlMove, if_neg hzero]
      simp only [hskip, hload, bind, Except.bind, if_neg hnot, true_and, if_true, hstore]
      rfl
  · have hzero : len ≠ 0 := fun h0 => htext ((len_eq_zero_iff hlen).mp h0)
    rw [strtrimlMove, if_neg hzero]
    simp only [hskip, bind, Except.bind, if_pos hc, hstore]
    rfl

/-- With a core, that is moved, and the terminator is written behind it. -/
theorem strtrimlMove_of_core_ne_nil (hcore : core isWs text ≠ [])
    (hlen : text.length = len.toNat) (pre post : List UInt8) (c : UInt8) :
    strtrimlMove (pre ++ (text ++ c :: post)) pre.length len
      = .ok (pre.length, pre ++ overwrite (core isWs text ++ [0]) (text ++ c :: post)) := by
  have hlength := length_eq isWs text
  have hroom : (core isWs text).length < (text ++ c :: post).length := by
    rw [List.length_append, List.length_cons]
    omega
  have hover : pre.length + (core isWs text).length
      < (pre ++ overwrite (core isWs text) (text ++ c :: post)).length := by
    rw [List.length_append, length_overwrite (Nat.le_of_lt hroom)]
    omega
  have hset := set_append_overwrite hroom pre 0
  have hmove := move_core pre text post c
  obtain ⟨hskip, ⟨x, hload⟩, hne, hback⟩ := scan_of_core_ne_nil hcore hlen pre post c
  rw [strtrimlMove, if_neg (len_ne_zero_of_core_ne_nil hcore hlen)]
  simp only [hskip, hload, hback, bind, Except.bind, Bool.false_eq_true, if_false,
    if_neg (fun hand : x = 0 ∧ front pre text = pre.length + len.toNat => hne hand.2),
    trimmedLen_toNat hlen pre]
  -- the call moves only when something was skipped in front, and writes the NUL in both cases
  by_cases horig : pre.length ≠ front pre text
  · rw [if_pos horig] at hmove
    simp only [if_pos horig, hmove, store_of_lt hover, hset]
    rfl
  · rw [if_neg horig] at hmove
    simp only [if_neg horig, pure, Except.pure] at hmove ⊢
    rw [Except.ok.inj hmove, store_of_lt hover, hset]

theorem strtrimlMove_eq (h : Ends text c) (hlen : text.length = len.toNat)
    (pre post : List UInt8) :
    strtrimlMove (pre ++ (text ++ c :: post)) pre.length len
      = .ok (pre.length, pre ++ overwrite (core isWs text ++ [0]) (text ++ c :: post)) := by
  by_cases hcore : core isWs text = []
  · rw [strtrimlMove_of_core_eq_nil hcore (h.resolve_left (not_not.mpr hcore)) hlen, hcore,
      List.nil_append]
  · exact strtrimlMove_of_core_ne_nil hcore hlen pre post c

theorem strlen_append (pre post : List UInt8) {s : List UInt8} (hs : ∀ x ∈ s, x ≠ 0) :
    strlen (pre ++ (s ++ 0 :: post)) pre.length = .ok (UInt64.ofNat s.length) := by
  rw [strlen, List.drop_left, CStr.findIdx?_nul hs]

/-! ### What they leave -/

/-- The buffer as the trimmers see it. -/
theorem exists_eq_take_append {buf : List UInt8} (h : len.toNat < buf.length) :
    (buf.take len.toNat).length = len.toNat ∧
      ∃ c post, buf[len.toNat]? = some c ∧ buf = buf.take len.toNat ++ c :: post := by
  refine ⟨List.length_take_of_le (Nat.le_of_lt h), buf[len.toNat], buf.drop (len.toNat + 1),
    List.getElem?_eq_getElem h, ?_⟩
  rw [← List.drop_eq_getElem_cons h, List.take_append_drop]

theorem take_buffer (hlen : text.length = len.toNat) (post : List UInt8) (c : UInt8) :
    (text ++ c :: post).take (len.toNat + 1) = text ++ c :: [] := by
  rw [← hlen, List.take_append, List.take_of_length_le (Nat.le_succ _), Nat.add_sub_cancel_left]
  rfl

theorem within_strtriml (h : Ends text c) (hlen : text.length = len.toNat) (post : List UInt8) :
    Within (len.toNat + 1) (fun b => strtriml b 0 len) (text ++ c :: post) (front [] text)
      ((text ++ c :: post).set (front [] text + (core isWs text).length) 0) := by
  have hle := front_add_le hlen []
  rw [List.length_nil, Nat.zero_add] at hle
  refine ⟨strtriml_eq h hlen [] post, ?_, List.drop_set_of_lt (Nat.lt_succ_of_le hle)⟩
  rw [List.take_set, take_buffer hlen]
  exact strtriml_eq h hlen [] []

theorem within_strtrimlMove (h : Ends text c) (hlen : text.length = len.toNat)
    (post : List UInt8) :
    Within (len.toNat + 1) (fun b => strtrimlMove b 0 len) (text ++ c :: post) 0
      (overwrite (core isWs text ++ [0]) (text ++ c :: post)) := by
  have hlength := length_eq isWs text
  have hle : (core isWs text ++ [0]).length ≤ len.toNat + 1 := by
    rw [List.length_append, List.length_singleton]
    omega
  refine ⟨strtrimlMove_eq h hlen [] post, ?_, drop_overwrite hle⟩
  rw [take_overwrite hle, take_buffer hlen]
  exact strtrimlMove_eq h hlen [] []

/-- The buffer after a call of `strtriml`. -/
theorem exists_set_eq (pre text post : List UInt8) (c : UInt8) :
    ∃ rest, (pre ++ (text ++ c :: post)).set (front pre text + (core isWs text).length) 0
      = (pre ++ lead isWs text) ++ (core isWs text ++ 0 :: rest) := by
  obtain ⟨x, rest, hrest⟩ : ∃ x rest, trail isWs text ++ c :: post = x :: rest :=
    List.exists_cons_of_ne_nil (List.append_ne_nil_of_right_ne_nil _ (List.cons_ne_nil c post))
  refine ⟨rest, ?_⟩
  rw [buffer_eq, hrest, front_eq, ← List.length_append, ← List.append_assoc, set_append_cons,
    List.append_assoc]

theorem at_strtriml {s : CStr} (hs : s.bytes = core isWs text) (pre post : List UInt8)
    (c : UInt8) :
    s.At ((pre ++ (text ++ c :: post)).set (front pre text + (core isWs text).length) 0)
      (front pre text) := by
  obtain ⟨rest, hset⟩ := exists_set_eq pre text post c
  refine ⟨rest, ?_⟩
  rw [hset, front_eq, List.drop_left, hs]

theorem at_strtrimlMove {s : CStr} (hs : s.bytes = core isWs text) (pre o : List UInt8) :
    s.At (pre ++ overwrite (core isWs text ++ [0]) o) pre.length := by
  refine ⟨o.drop (core isWs text ++ [0]).length, ?_⟩
  rw [List.drop_left, overwrite, List.append_assoc, hs]
  rfl

end Bluetea.Strtrim
