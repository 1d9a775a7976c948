import Bluetea.CString.Basic
import Bluetea.OldString.Copy
import Mathlib.Algebra.Group.Nat.Defs

/-!
# Two ways to cut a string

`sane_strncpy` fills all `n` bytes and no others (`saneStrncpy_eq`), and `trunc_str` stays inside any C
string (`truncStr_eq`).  Copying with `n` and truncating at `n - 1` leave the same string
(`saneStrncpy_truncStr`).
-/

namespace Bluetea.OldString

open Buffer (Fault load store overwrite put)

variable {w o l pre post : List UInt8} {i n : ℕ}

/-! ### Copying -/

/-- A store, and what goes on behind it. -/
theorem store_put {k : List UInt8 → Except Fault (List UInt8)} {t : List UInt8} {x : UInt8}
    (hi : i = w.length) (hw : w.length ≤ o.length)
    (hk : i + 1 = (w ++ [x]).length → (w ++ [x]).length ≤ o.length →
      k (overwrite (w ++ [x]) o) = put o (w ++ [x]) t) :
    (store (overwrite w o) i x >>= k) = put o w (x :: t) := by
  have hbind : (store (overwrite w o) i x >>= k) = (put o w (x :: t)).map id := by
    apply Buffer.store_bind hi hw
    intro hi' hw'
    rw [Except.map_id]
    exact hk hi' hw'
  rwa [Except.map_id] at hbind

theorem padLoop_eq (hi : i = w.length) (hw : w.length ≤ o.length) (n : ℕ) :
    padLoop n i (overwrite w o) = put o w (List.replicate n 0) := by
  induction n generalizing i w with
  | zero => exact (Buffer.put_nil hw).symm
  | succ n ih =>
    rw [padLoop, List.replicate_succ]
    exact store_put hi hw fun hi' hw' => ih hi' hw'

theorem strncpyLoop_eq (hl : ∀ b ∈ l, b ≠ 0) (hpre : i = pre.length) (hi : i = w.length)
    (hw : w.length ≤ o.length) (n : ℕ) :
    strncpyLoop (pre ++ (l ++ 0 :: post)) n i (overwrite w o)
      = put o w (l.take n ++ List.replicate (n - l.length) 0) := by
  induction n generalizing i w l pre with
  | zero =>
    rw [Nat.zero_sub]
    exact (Buffer.put_nil hw).symm
  | succ n ih =>
    cases l with
    | nil =>
      -- the terminator, and zeros from there on
      rw [strncpyLoop, hpre, List.nil_append, Buffer.load_append]
      exact padLoop_eq (hpre.symm.trans hi) hw (n + 1)
    | cons c l =>
      have hc : c ≠ 0 := hl c (List.mem_cons_self ..)
      have hsrc : pre ++ (c :: l ++ 0 :: post) = pre ++ (c :: l ++ 0 :: post) := rfl
      obtain ⟨hload, hsplit, hpre'⟩ := Buffer.load_next hsrc hpre
      rw [strncpyLoop, hload]
      show (if c = 0 then _ else _) = _
      rw [if_neg hc, List.take_succ_cons, List.length_cons, Nat.add_sub_add_right, List.cons_append]
      apply store_put hi hw
      intro hi' hw'
      rw [show pre ++ c :: (l ++ 0 :: post) = pre ++ [c] ++ (l ++ 0 :: post) from hsplit]
      exact ih (fun b hb => hl b (List.mem_cons_of_mem _ hb)) hpre' hi' hw'

/-- The string cut off behind `n` bytes. -/
def cut (s : CStr) (n : ℕ) : CStr :=
  ⟨s.bytes.take n, fun b hb => s.ne_zero b (List.mem_of_mem_take hb)⟩

/-- The `n` bytes that `strncpy` writes. -/
def copied (s : CStr) (n : ℕ) : List UInt8 := (cut s n).bytes ++ List.replicate (n - s.strlen) 0

theorem length_copied (s : CStr) (n : ℕ) : (copied s n).length = n := by
  have hlen : s.strlen = s.bytes.length := rfl
  rw [copied, List.length_append, cut, List.length_take, List.length_replicate]
  omega

/-- All bytes are written up to the last one of `n`, or up to the first one that is not there. -/
theorem saneStrncpy_eq {s : CStr} {src : List UInt8} (hs : s.At src 0) (dest : List UInt8)
    (n : UInt64) : saneStrncpy dest src n = put dest [] (copied s (n - 1).toNat ++ [0]) := by
  obtain ⟨post, hpost⟩ := hs
  have hsrc : src = [] ++ (s.bytes ++ 0 :: post) := hpost
  have hcopy : strncpy dest src (n - 1) = put dest [] (copied s (n - 1).toNat) := by
    rw [strncpy, hsrc]
    exact strncpyLoop_eq s.ne_zero rfl rfl (Nat.zero_le _) (n - 1).toNat
  have hbind : ((put dest [] (copied s (n - 1).toNat)).map id >>=
      fun dest => store dest (n - 1).toNat 0)
        = (put dest [] (copied s (n - 1).toNat ++ [0])).map id := by
    apply Buffer.put_bind
    intro hroom
    rw [List.length_nil, Nat.zero_add] at hroom
    have hstore := Buffer.store_eq_put hroom 0
    rw [length_copied] at hstore
    rw [Except.map_id]
    exact hstore
  rw [Except.map_id] at hbind
  rw [saneStrncpy, hcopy]
  exact hbind

/-! ### Truncating -/

/-- The scan ends at the terminator, or behind `n` bytes. -/
theorem strnlenLoop_eq {l pre post : List UInt8} (hl : ∀ b ∈ l, b ≠ 0) {i : ℕ} (hpre : i = pre.length)
    (n : ℕ) : strnlenLoop (pre ++ (l ++ 0 :: post)) n i = .ok (i + min n l.length) := by
  -- the loop stops at its bound or at the NUL, whichever comes first
  induction n generalizing i l pre with
  | zero => rw [strnlenLoop, Nat.zero_min, Nat.add_zero]
  | succ n ih =>
    cases l with
    | nil =>
      rw [strnlenLoop, hpre, List.nil_append, Buffer.load_append, List.length_nil, Nat.min_zero]
      rfl
    | cons c l =>
      have hc : c ≠ 0 := hl c (List.mem_cons_self ..)
      have hsrc : pre ++ (c :: l ++ 0 :: post) = pre ++ (c :: l ++ 0 :: post) := rfl
      obtain ⟨hload, hsplit, hpre'⟩ := Buffer.load_next hsrc hpre
      rw [strnlenLoop, hload]
      show (if c = 0 then _ else _) = _
      rw [if_neg hc, hsplit, ih (fun b hb => hl b (List.mem_cons_of_mem _ hb)) hpre',
        List.length_cons]
      congr 1
      omega

/-- At a C string there is always a byte to write the terminator to. -/
theorem truncStr_eq {s : CStr} {str : List UInt8} (hs : s.At str 0) (n : UInt64) :
    ∃ r, truncStr str n = .ok r ∧ (cut s n.toNat).At r 0 ∧ ∀ i, i ≠ n.toNat → r[i]? = str[i]? := by
  obtain ⟨post, hpost⟩ := hs
  have hstr : str = [] ++ (s.bytes ++ 0 :: post) := hpost
  have hlen : s.strlen = s.bytes.length := rfl
  have hscan : strnlenLoop str n.toNat 0 = .ok (min n.toNat s.strlen) := by
    have hloop : strnlenLoop ([] ++ (s.bytes ++ 0 :: post)) n.toNat 0
        = .ok (0 + min n.toNat s.bytes.length) := strnlenLoop_eq s.ne_zero rfl n.toNat
    rw [hstr, hloop, Nat.zero_add, hlen]
  have htrunc : truncStr str n
      = if min n.toNat s.strlen < n.toNat then .ok str else store str n.toNat 0 := by
    rw [truncStr, hscan]
    rfl
  rw [htrunc]
  by_cases hshort : min n.toNat s.strlen < n.toNat
  · -- the string is shorter and stays as it is
    rw [if_pos hshort]
    refine ⟨str, rfl, ⟨post, ?_⟩, fun _ _ => rfl⟩
    show str.drop 0 = s.bytes.take n.toNat ++ 0 :: post
    rw [List.take_of_length_le (by omega)]
    exact hpost
  · rw [if_neg hshort]
    have hlt : n.toNat < str.length := by
      rw [hstr, List.nil_append, List.length_append, List.length_cons]
      omega
    refine ⟨_, Buffer.store_of_lt hlt 0, ⟨str.drop (n.toNat + 1), ?_⟩, ?_⟩
    · have htake : str.take n.toNat = s.bytes.take n.toNat := by
        rw [hstr, List.nil_append, List.take_append_of_le_length (by omega)]
      rw [List.drop_zero, List.set_eq_take_append_cons_drop, if_pos hlt, htake]
      rfl
    · intro i hi
      exact List.getElem?_set_ne (Ne.symm hi)

/-! ### Both -/

/-- **Copying a string into `m + 1` bytes and truncating it at `m`** leave the same string, the first
`m` bytes of it.  The copy writes these `m + 1` bytes whatever the length of the string, so it needs
room for them; truncating a string never leaves its memory.  With a size of 0 the copy runs through all
memory. -/
theorem saneStrncpy_truncStr {s : CStr} {src : List UInt8} (hs : s.At src 0) {dest : List UInt8}
    (hdest : dest.length < 2 ^ 64) (m : UInt64) :
    saneStrncpy dest src 0 = .error (.write dest.length) ∧
    (dest.length < m.toNat + 1 → saneStrncpy dest src (m + 1) = .error (.write dest.length)) ∧
    (m.toNat + 1 ≤ dest.length → ∃ r, saneStrncpy dest src (m + 1) = .ok r ∧
      (cut s m.toNat).At r 0 ∧ ∀ i, m.toNat + 1 ≤ i → r[i]? = dest[i]?) ∧
    ∃ r, truncStr src m = .ok r ∧ (cut s m.toNat).At r 0 ∧ ∀ i, i ≠ m.toNat → r[i]? = src[i]? := by
  have hlen : ∀ n, (copied s n ++ [0]).length = n + 1 := by
    intro n
    rw [List.length_append, length_copied]
    rfl
  have hsub : m + 1 - 1 = m := UInt64.add_sub_cancel m 1
  refine ⟨?_, ?_, ?_, truncStr_eq hs m⟩
  · rw [saneStrncpy_eq hs]
    apply Buffer.put_of_lt
    rw [hlen, List.length_nil, Nat.zero_add]
    exact hdest
  · intro hlt
    rw [saneStrncpy_eq hs, hsub]
    apply Buffer.put_of_lt
    rw [hlen, List.length_nil, Nat.zero_add]
    exact hlt
  · intro hle
    rw [saneStrncpy_eq hs, hsub]
    refine ⟨_, Buffer.put_of_le (by rwa [hlen, List.length_nil, Nat.zero_add]), ?_, ?_⟩
    · -- `strncpy` pads with NULs up to its size, so the terminator is not only the last byte
      refine ⟨List.replicate (m.toNat - s.strlen) 0 ++ dest.drop (m.toNat + 1), ?_⟩
      have hzeros : List.replicate (m.toNat - s.strlen) (0 : UInt8) ++ [0]
          = 0 :: List.replicate (m.toNat - s.strlen) 0 := by
        rw [← List.replicate_succ', List.replicate_succ]
      show copied s m.toNat ++ [0] ++ dest.drop (copied s m.toNat ++ [0]).length = _
      rw [hlen, copied, List.append_assoc _ _ [0], hzeros, List.append_assoc, List.cons_append]
    · intro i hi
      apply Buffer.getElem?_overwrite_of_le
      rw [List.nil_append, hlen]
      exact hi

/-- Three bytes that are cut to two. -/
def threeBytes : CStr := ⟨[65, 66, 67], CStr.ne_zero_of_all rfl⟩

theorem saneStrncpy_truncStr_three :
    saneStrncpy [1, 1] [65, 66, 67, 0] (2 + 1) = .error (.write 2) ∧
    ∃ r, truncStr [65, 66, 67, 0] 2 = .ok r ∧ (cut threeBytes 2).At r 0 ∧
      ∀ i, i ≠ 2 → r[i]? = [65, 66, 67, 0][i]? := by
  have hs : threeBytes.At [65, 66, 67, 0] 0 := ⟨[], rfl⟩
  have hdest : ([1, 1] : List UInt8).length < 2 ^ 64 := by decide
  obtain ⟨-, hshort, -, htrunc⟩ := saneStrncpy_truncStr hs hdest 2
  exact ⟨hshort (by decide), htrunc⟩

end Bluetea.OldString
