import Bluetea.OldString.Trim
import Bluetea.Strtrim.Equiv.Call
import Bluetea.Trimming.Basic

/-!
# Trimming with and without a copy

Both trimmers report the length of the core.  `trim_len` writes the terminator behind the core,
wherever it is (`trimLen_eq`).  `trim_len_cpy` does so only if it has moved the core
(`trimLenCpy_eq`), so `trim_cpy` leaves a string that does not begin with whitespace as it is, with
the whitespace at its end (`trimCpy_agrees_iff`).
-/

namespace Bluetea.OldString

open Buffer (overwrite)
open Strtrim (load_append store_of_lt set_append_cons set_append_overwrite)
open Trimming

variable {text : List UInt8} {len : UInt64}

/-! ### The scans -/

/-- The scan goes over the whitespace `w`. -/
theorem trimHead_append {w : List UInt8} (hw : ∀ x ∈ w, isTrimmed x) (pre rest : List UInt8)
    (n : ℕ) (moveH : Bool) :
    trimHead (pre ++ (w ++ rest)) pre.length (w.length + n) moveH
      = trimHead (pre ++ (w ++ rest)) (pre.length + w.length) n (moveH || !w.isEmpty) := by
  induction w generalizing pre moveH with
  | nil =>
    rw [List.length_nil, Nat.zero_add, List.isEmpty_nil, Bool.not_true, Bool.or_false]
    rfl
  | cons x w ih =>
    have hx : isTrimmed x := hw x (List.mem_cons_self ..)
    have hih := ih (fun y hy => hw y (List.mem_cons_of_mem _ hy)) (pre ++ [x]) true
    rw [List.length_append, List.append_assoc, List.length_singleton, Bool.true_or] at hih
    rw [List.length_cons, Nat.add_right_comm, trimHead, List.cons_append, load_append]
    simp only [bind, Except.bind, if_pos hx]
    rw [Nat.add_comm w.length 1, ← Nat.add_assoc, List.isEmpty_cons, Bool.not_false, Bool.or_true]
    exact hih

/-- The scan goes over the whitespace `w`. -/
theorem trimTail_append {w : List UInt8} (hw : ∀ x ∈ w, isTrimmed x) (l rest : List UInt8)
    (n : ℕ) (moveT : Bool) :
    trimTail (l ++ (w ++ rest)) (l.length + w.length) (n + w.length) moveT
      = trimTail (l ++ (w ++ rest)) l.length n (moveT || !w.isEmpty) := by
  induction w generalizing l n with
  | nil =>
    rw [List.isEmpty_nil, Bool.not_true, Bool.or_false]
    rfl
  | cons x w ih =>
    have hx : isTrimmed x := hw x (List.mem_cons_self ..)
    have hih := ih (fun y hy => hw y (List.mem_cons_of_mem _ hy)) (l ++ [x]) (n + 1)
    rw [List.length_append, List.append_assoc, List.length_singleton] at hih
    rw [List.length_cons, Nat.add_comm w.length 1, ← Nat.add_assoc, ← Nat.add_assoc]
    calc trimTail (l ++ (x :: w ++ rest)) (l.length + 1 + w.length) (n + 1 + w.length) moveT
        = trimTail (l ++ (x :: w ++ rest)) (l.length + 1) (n + 1) (moveT || !w.isEmpty) := hih
      _ = trimTail (l ++ (x :: w ++ rest)) l.length n (moveT || !(x :: w).isEmpty) := by
          rw [trimTail, List.cons_append, load_append]
          simp only [bind, Except.bind, if_pos hx]
          rw [List.isEmpty_cons, Bool.not_false, Bool.or_true]

/-- The index of the core. -/
def front (pre text : List UInt8) : ℕ := pre.length + (lead isTrimmed text).length

theorem trimHead_eq (pre text rest : List UInt8) :
    trimHead (pre ++ (text ++ rest)) pre.length text.length false
      = .ok (front pre text, (core isTrimmed text).length + (trail isTrimmed text).length,
          !(lead isTrimmed text).isEmpty) := by
  have happ := trimHead_append (w := lead isTrimmed text) (fun x hx => of_mem_lead hx) pre
    ((core isTrimmed text ++ trail isTrimmed text) ++ rest)
    ((core isTrimmed text).length + (trail isTrimmed text).length) false
  rw [length_eq, ← List.append_assoc (lead isTrimmed text), lead_append, Bool.false_or] at happ
  rw [happ, ← front]
  by_cases hcore : core isTrimmed text = []
  · rw [hcore, trail_of_core_eq_nil hcore]
    rfl
  · -- the scan ends at the core
    obtain ⟨x, t, hx, hnot⟩ := exists_cons_of_core_ne_nil hcore
    have hload : Strtrim.load (pre ++ (text ++ rest)) (front pre text) = .ok x := by
      rw [append_append_eq isTrimmed, hx, front, ← List.length_append]
      exact load_append ..
    rw [hx, List.length_cons, Nat.add_right_comm, trimHead, hload]
    simp only [bind, Except.bind, if_neg hnot]
    rfl

theorem trimTail_eq (pre text rest : List UInt8) :
    trimTail (pre ++ (text ++ rest)) (pre.length + text.length)
        ((core isTrimmed text).length + (trail isTrimmed text).length) false
      = .ok (front pre text + (core isTrimmed text).length, (core isTrimmed text).length,
          !(trail isTrimmed text).isEmpty) := by
  have hlength := length_eq isTrimmed text
  have hfront : ((pre ++ lead isTrimmed text) ++ core isTrimmed text).length
      = front pre text + (core isTrimmed text).length := by
    rw [List.length_append, List.length_append, front]
  have happ := trimTail_append (w := trail isTrimmed text) (fun x hx => of_mem_trail hx)
    ((pre ++ lead isTrimmed text) ++ core isTrimmed text) rest (core isTrimmed text).length false
  rw [hfront, List.append_assoc _ (core isTrimmed text), ← append_append_eq, Bool.false_or] at happ
  have hend : pre.length + text.length
      = front pre text + (core isTrimmed text).length + (trail isTrimmed text).length := by
    rw [front]
    omega
  rw [hend, happ]
  by_cases hcore : core isTrimmed text = []
  · rw [hcore, List.length_nil, trimTail]
  · -- the scan ends at the core
    obtain ⟨t, x, hx, hnot⟩ := exists_concat_of_core_ne_nil hcore
    have hload : Strtrim.load (pre ++ (text ++ rest)) (front pre text + t.length) = .ok x := by
      rw [append_append_eq isTrimmed, hx, front, ← List.length_append, List.append_assoc t,
        ← List.append_assoc (pre ++ _), ← List.length_append]
      exact load_append ..
    have hlen : (core isTrimmed text).length = t.length + 1 := by
      rw [hx, List.length_append, List.length_singleton]
    rw [hlen, ← Nat.add_assoc, trimTail, hload]
    simp only [bind, Except.bind, if_neg hnot]
    rfl

/-! ### The calls -/

/-- The buffer with the terminator behind the core. -/
def left (pre text post : List UInt8) : List UInt8 :=
  (pre ++ (text ++ 0 :: post)).set (front pre text + (core isTrimmed text).length) 0

/-- The buffer with the core moved to the beginning, if it is not there. -/
def leftCpy (pre text post : List UInt8) : List UInt8 :=
  if lead isTrimmed text = [] then pre ++ (text ++ 0 :: post)
  else pre ++ overwrite (core isTrimmed text ++ [0]) (text ++ 0 :: post)

theorem exists_left_eq (pre text post : List UInt8) :
    ∃ rest, left pre text post
      = (pre ++ lead isTrimmed text) ++ (core isTrimmed text ++ 0 :: rest) := by
  obtain ⟨x, rest, hrest⟩ : ∃ x rest, trail isTrimmed text ++ 0 :: post = x :: rest :=
    List.exists_cons_of_ne_nil (List.append_ne_nil_of_right_ne_nil _ (List.cons_ne_nil 0 post))
  refine ⟨rest, ?_⟩
  rw [left, append_append_eq isTrimmed, hrest, front, ← List.length_append, ← List.append_assoc,
    ← List.length_append, set_append_cons, List.append_assoc]

/-- Nothing trails: the terminator is behind the core already. -/
theorem left_of_trail_eq_nil (htrail : trail isTrimmed text = []) (pre post : List UInt8) :
    left pre text post = pre ++ (text ++ 0 :: post) := by
  rw [left, append_append_eq isTrimmed, htrail, List.nil_append, front, ← List.length_append,
    ← List.append_assoc, ← List.length_append, set_append_cons]

theorem trimLen_eq (hlen : text.length = len.toNat) (pre post : List UInt8) :
    trimLen (pre ++ (text ++ 0 :: post)) pre.length len
      = .ok (front pre text, UInt64.ofNat (core isTrimmed text).length, left pre text post) := by
  have hlength := length_eq isTrimmed text
  have hlt : front pre text + (core isTrimmed text).length
      < (pre ++ (text ++ 0 :: post)).length := by
    rw [List.length_append, List.length_append, List.length_cons, front]
    omega
  rw [trimLen, ← hlen]
  simp only [trimHead_eq, trimTail_eq, bind, Except.bind]
  by_cases hmove : (core isTrimmed text).length > 0 ∧ (!(trail isTrimmed text).isEmpty) = true
  · rw [if_pos hmove]
    simp only [store_of_lt hlt]
    rfl
  · -- nothing behind the core: the NUL that the text had stays in place
    rw [if_neg hmove]
    have htrail : trail isTrimmed text = [] := by
      by_contra hne
      have hcore : core isTrimmed text ≠ [] := fun h => hne (trail_of_core_eq_nil h)
      apply hmove
      rw [List.isEmpty_eq_false_iff.mpr hne]
      exact ⟨List.length_pos_of_ne_nil hcore, rfl⟩
    rw [left_of_trail_eq_nil htrail]
    rfl

/-- The core is moved to the beginning. -/
theorem move_core (pre text rest : List UInt8) :
    Strtrim.memmove (pre ++ (text ++ rest)) pre.length (front pre text) (core isTrimmed text).length
      = .ok (pre ++ overwrite (core isTrimmed text) (text ++ rest)) := by
  have htext : text ++ rest
      = lead isTrimmed text ++ (core isTrimmed text ++ (trail isTrimmed text ++ rest)) :=
    append_append_eq isTrimmed [] text rest
  rw [htext, Strtrim.memmove, front, Buffer.memmove_down]
  rfl

theorem trimLenCpy_eq (hlen : text.length = len.toNat) (pre post : List UInt8) :
    trimLenCpy (pre ++ (text ++ 0 :: post)) pre.length len
      = .ok (pre.length, UInt64.ofNat (core isTrimmed text).length, leftCpy pre text post) := by
  have hlength := length_eq isTrimmed text
  rw [trimLenCpy, ← hlen, leftCpy]
  simp only [trimHead_eq, trimTail_eq, bind, Except.bind]
  by_cases hlead : lead isTrimmed text = []
  · rw [if_pos hlead, hlead]
    rfl
  · have hroom : (core isTrimmed text).length < (text ++ 0 :: post).length := by
      rw [List.length_append, List.length_cons]
      omega
    have hlt : pre.length + (core isTrimmed text).length
        < (pre ++ overwrite (core isTrimmed text) (text ++ 0 :: post)).length := by
      rw [List.length_append, Buffer.length_overwrite (Nat.le_of_lt hroom)]
      omega
    rw [if_neg hlead, List.isEmpty_eq_false_iff.mpr hlead]
    by_cases hpos : (core isTrimmed text).length > 0
    · simp only [Bool.not_false, if_true, if_pos hpos, move_core, store_of_lt hlt,
        set_append_overwrite hroom]
      rfl
    · -- nothing is moved
      have hnil : core isTrimmed text = [] :=
        List.eq_nil_of_length_eq_zero (Nat.eq_zero_of_not_pos hpos)
      have hbuf : pre ++ (text ++ 0 :: post)
          = pre ++ overwrite (core isTrimmed text) (text ++ 0 :: post) := by
        rw [hnil]
        rfl
      simp only [Bool.not_false, if_true, if_neg hpos, pure, Except.pure]
      rw [hbuf, store_of_lt hlt, set_append_overwrite hroom]

/-! ### The strings -/

/-- What the header says: the two trimmers leave the same string `s`.  It has no whitespace at its
ends, and its length is reported. -/
structure Agree (buf : List UInt8) (str : ℕ) (s : CStr) : Prop where
  orig : ∃ ret buf', trim buf str = .ok (ret, buf') ∧ s.At buf' ret
  copy : ∃ ret buf', trimCpy buf str = .ok (ret, buf') ∧ s.At buf' ret
  head : ∀ c, s.bytes.head? = some c → ¬isTrimmed c
  last : ∀ c, s.bytes.getLast? = some c → ¬isTrimmed c
  len : ∃ len ret n buf', Strtrim.strlen buf str = .ok len ∧
    trimLen buf str len = .ok (ret, n, buf') ∧ n.toNat = s.strlen
  lenCpy : ∃ len ret n buf', Strtrim.strlen buf str = .ok len ∧
    trimLenCpy buf str len = .ok (ret, n, buf') ∧ n.toNat = s.strlen

/-- The string that is left. -/
def coreStr (t : CStr) : CStr where
  bytes := core isTrimmed t.bytes
  ne_zero x hx := t.ne_zero x (mem_of_mem_core hx)

/-- The string that `trim_len` leaves. -/
theorem at_left_iff {s t : CStr} (pre post : List UInt8) :
    s.At (left pre t.bytes post) (front pre t.bytes) ↔ s = coreStr t := by
  obtain ⟨rest, hleft⟩ := exists_left_eq pre t.bytes post
  rw [hleft, front, ← List.length_append]
  exact CStr.at_append_iff (t := coreStr t) (pre ++ lead isTrimmed t.bytes) rest

/-- The string that `trim_len_cpy` leaves. -/
theorem at_leftCpy_iff {s t : CStr} (pre post : List UInt8) :
    s.At (leftCpy pre t.bytes post) pre.length ↔
      s = if lead isTrimmed t.bytes = [] then t else coreStr t := by
  unfold leftCpy
  by_cases hlead : lead isTrimmed t.bytes = []
  · rw [if_pos hlead, if_pos hlead]
    exact CStr.at_append_iff ..
  · rw [if_neg hlead, if_neg hlead, overwrite, List.append_assoc]
    exact CStr.at_append_iff (t := coreStr t) pre _

/-- Without whitespace at its ends, a string is what is left of it. -/
theorem coreStr_eq_iff {t : CStr} (hlead : lead isTrimmed t.bytes = []) :
    coreStr t = t ↔ trail isTrimmed t.bytes = [] := by
  have happ := lead_append isTrimmed t.bytes
  rw [hlead, List.nil_append] at happ
  constructor
  · intro heq
    have hbytes : core isTrimmed t.bytes = t.bytes := congrArg CStr.bytes heq
    rw [hbytes] at happ
    exact List.append_right_eq_self.mp happ
  · intro htrail
    rw [htrail, List.append_nil] at happ
    exact CStr.bytes_injective happ

/-- The length is a `size_t`. -/
theorem length_eq_toNat {t : CStr} (hlt : t.strlen < UInt64.size) :
    t.bytes.length = (UInt64.ofNat t.bytes.length).toNat :=
  (UInt64.toNat_ofNat_of_lt' hlt).symm

theorem trim_eq {t : CStr} (hlt : t.strlen < UInt64.size) (pre post : List UInt8) :
    trim (pre ++ (t.bytes ++ 0 :: post)) pre.length
      = .ok (front pre t.bytes, left pre t.bytes post) := by
  have hlen := length_eq_toNat hlt
  simp only [trim, Strtrim.strlen_append pre post t.ne_zero, trimLen_eq hlen, bind, Except.bind]
  rfl

theorem trimCpy_eq {t : CStr} (hlt : t.strlen < UInt64.size) (pre post : List UInt8) :
    trimCpy (pre ++ (t.bytes ++ 0 :: post)) pre.length
      = .ok (pre.length, leftCpy pre t.bytes post) := by
  have hlen := length_eq_toNat hlt
  simp only [trimCpy, Strtrim.strlen_append pre post t.ne_zero, trimLenCpy_eq hlen, bind,
    Except.bind]
  rfl

theorem toNat_length_core {t : CStr} (hlt : t.strlen < UInt64.size) :
    (UInt64.ofNat (core isTrimmed t.bytes).length).toNat = (coreStr t).strlen := by
  have hlength := length_eq isTrimmed t.bytes
  apply UInt64.toNat_ofNat_of_lt'
  apply Nat.lt_of_le_of_lt _ hlt
  rw [CStr.strlen]
  omega

/-- If something leads or nothing trails, both trimmers leave the core. -/
theorem agree_coreStr {t : CStr} (hlt : t.strlen < UInt64.size)
    (h : lead isTrimmed t.bytes ≠ [] ∨ trail isTrimmed t.bytes = []) (pre post : List UInt8) :
    Agree (pre ++ (t.bytes ++ 0 :: post)) pre.length (coreStr t) := by
  have hlen := length_eq_toNat hlt
  have hstrlen := Strtrim.strlen_append pre post t.ne_zero
  have hcopy : coreStr t = if lead isTrimmed t.bytes = [] then t else coreStr t := by
    by_cases hlead : lead isTrimmed t.bytes = []
    · rw [if_pos hlead, coreStr_eq_iff hlead]
      exact h.resolve_left (not_not.mpr hlead)
    · rw [if_neg hlead]
  constructor
  · exact ⟨_, _, trim_eq hlt pre post, (at_left_iff pre post).mpr rfl⟩
  · exact ⟨_, _, trimCpy_eq hlt pre post, (at_leftCpy_iff pre post).mpr hcopy⟩
  · intro c hc
    exact head?_core hc
  · intro c hc
    exact getLast?_core hc
  · exact ⟨_, _, _, _, hstrlen, trimLen_eq hlen pre post, toNat_length_core hlt⟩
  · exact ⟨_, _, _, _, hstrlen, trimLenCpy_eq hlen pre post, toNat_length_core hlt⟩

/-- If nothing leads, `trim_cpy` leaves the string as it is. -/
theorem trail_eq_nil_of_agree {s t : CStr} (hlt : t.strlen < UInt64.size)
    (hlead : lead isTrimmed t.bytes = []) {pre post : List UInt8}
    (h : Agree (pre ++ (t.bytes ++ 0 :: post)) pre.length s) : trail isTrimmed t.bytes = [] := by
  obtain ⟨ret, buf', hok, hs⟩ := h.orig
  obtain ⟨retCpy, bufCpy, hokCpy, hsCpy⟩ := h.copy
  rw [trim_eq hlt] at hok
  rw [trimCpy_eq hlt] at hokCpy
  cases hok
  cases hokCpy
  rw [at_left_iff] at hs
  rw [at_leftCpy_iff, if_pos hlead] at hsCpy
  rw [← coreStr_eq_iff hlead, ← hs, hsCpy]

/-- `trim_cpy` agrees with `trim` on exactly the strings that begin with whitespace or do not end
with it. -/
theorem trimCpy_agrees_iff {t : CStr} {buf : List UInt8} {str : ℕ} (ht : t.At buf str)
    (hlt : t.strlen < UInt64.size) :
    (∃ s, Agree buf str s) ↔
      (∃ c, t.bytes.head? = some c ∧ isTrimmed c) ∨
        ∀ c, t.bytes.getLast? = some c → ¬isTrimmed c := by
  obtain ⟨pre, post, rfl, rfl⟩ := ht.exists_append
  rw [← lead_ne_nil_iff]
  by_cases hlead : lead isTrimmed t.bytes = []
  · -- nothing skipped in front: `trim_len_cpy` terminates only what it has moved
    rw [← trail_eq_nil_iff hlead]
    constructor
    · rintro ⟨s, h⟩
      exact Or.inr (trail_eq_nil_of_agree hlt hlead h)
    · intro h
      exact ⟨coreStr t, agree_coreStr hlt h pre post⟩
  · constructor
    · intro _
      exact Or.inl hlead
    · intro _
      exact ⟨coreStr t, agree_coreStr hlt (Or.inl hlead) pre post⟩

/-- `" a "` -/
theorem trimCpy_agrees_iff_both :
    (∃ s, Agree [0x20, 0x61, 0x20, 0] 0 s) ↔
      (∃ c, [0x20, 0x61, 0x20].head? = some c ∧ isTrimmed c) ∨
        ∀ c, [0x20, 0x61, 0x20].getLast? = some c → ¬isTrimmed c :=
  trimCpy_agrees_iff (t := ⟨[0x20, 0x61, 0x20], CStr.ne_zero_of_all rfl⟩) ⟨[], rfl⟩ (by decide)

/-- `"a "`: only `trim` removes the space. -/
theorem trimCpy_keeps_trail :
    trim [0x61, 0x20, 0] 0 = .ok (0, [0x61, 0, 0]) ∧
      trimCpy [0x61, 0x20, 0] 0 = .ok (0, [0x61, 0x20, 0]) ∧ ¬∃ s, Agree [0x61, 0x20, 0] 0 s := by
  refine ⟨rfl, rfl, ?_⟩
  rintro ⟨s, h⟩
  obtain ⟨ret, buf', hok, hs⟩ := h.copy
  cases hok
  have hbytes : s.bytes = [0x61, 0x20] :=
    hs.bytes_eq (show _ = [0x61, 0x20] ++ 0 :: [] from rfl) (CStr.ne_zero_of_all rfl)
  exact h.last 0x20 (by rw [hbytes]; rfl) rfl

end Bluetea.OldString
