import Bluetea.CString.Basic
import Bluetea.OldString.Basic
import Bluetea.ShellWords.Basic
import Mathlib.Algebra.Group.Nat.Defs

/-!
# Quoting for the shell

`escapeshellarg` writes its argument in single quotes, with the terminator behind them, as far as
there is room (`escapeshellarg_eq`).  The shell reads that as one word, which is the argument
(`escapeshellarg_words`).
-/

namespace Bluetea.OldString

open Buffer ShellWords

/-- The bytes that `str` and `len` stand for: `len` bytes, or a C string if `len` is zero. -/
inductive Argument (str : List UInt8) (len : UInt64) (s : List UInt8) : Prop
  | counted (post : List UInt8) (hpos : len > 0) (hstr : str = s ++ post)
      (hlen : s.length = len.toNat)
  | terminated (post : List UInt8) (hzero : len = 0) (hstr : str = s ++ 0 :: post)
      (hs : ∀ b ∈ s, b ≠ 0) (hlt : s.length < UInt64.size)

variable {str s cmd : List UInt8} {len : UInt64}

theorem strlen_append {s : List UInt8} (hs : ∀ b ∈ s, b ≠ 0) (post : List UInt8) :
    strlen (s ++ 0 :: post) = .ok (UInt64.ofNat s.length) := by
  rw [strlen, CStr.findIdx?_nul hs]

theorem Argument.escapeLen_eq (h : Argument str len s) :
    escapeLen str len = .ok (UInt64.ofNat s.length) := by
  unfold escapeLen
  cases h with
  | counted post hpos hstr hlen => rw [if_pos hpos, hlen, UInt64.ofNat_toNat]
  | terminated post hzero hstr hs hlt =>
    rw [if_neg (by rw [hzero]; exact Nat.lt_irrefl 0), hstr, strlen_append hs]

theorem Argument.lt_size (h : Argument str len s) : s.length < UInt64.size := by
  cases h with
  | counted post hpos hstr hlen =>
    rw [hlen]
    exact len.toNat_lt
  | terminated post hzero hstr hs hlt => exact hlt

theorem Argument.exists_append (h : Argument str len s) : ∃ post, str = s ++ post := by
  cases h with
  | counted post hpos hstr hlen => exact ⟨post, hstr⟩
  | terminated post hzero hstr hs hlt => exact ⟨0 :: post, hstr⟩

/-- The loop, behind what has been read and written. -/
theorem escapeshellargLoop_eq {pre s post w : List UInt8} {x y : ℕ}
    (hstr : str = pre ++ (s ++ post)) (hx : x = pre.length) (hy : y = w.length)
    (hw : w.length ≤ cmd.length) :
    escapeshellargLoop str s.length x y (overwrite w cmd)
      = (put cmd w (s.flatMap (quoteLetter posix))).map
          (Prod.mk (w ++ s.flatMap (quoteLetter posix)).length) := by
  induction s generalizing pre w x y with
  | nil =>
    rw [List.flatMap_nil, put_nil hw, List.append_nil, ← hy]
    rfl
  | cons c s ih =>
    obtain ⟨hload, hnext, hx⟩ := load_next hstr hx
    rw [List.length_cons, escapeshellargLoop, hload, List.flatMap_cons]
    show (if c = posix.quote then _ else _) = _
    unfold quoteLetter
    -- a quote takes four stores, any other byte one; each may be the one past the buffer
    by_cases hc : c = posix.quote
    · rw [if_pos hc, if_pos hc]
      apply store_bind hy hw
      intro hy hw
      apply store_bind hy hw
      intro hy hw
      apply store_bind hy hw
      intro hy hw
      apply store_bind hy hw
      intro hy hw
      rw [ih hnext hx hy hw]
      simp only [List.append_assoc]
      rfl
    · rw [if_neg hc, if_neg hc]
      apply store_bind hy hw
      intro hy hw
      rw [ih hnext hx hy hw, List.append_assoc]
      rfl

/-- The call as a whole: the quoted argument and the terminator are written, as far as there is
room for them. -/
theorem escapeshellarg_eq (h : Argument str len s) (m : Malloc) (alloc : Option (List UInt8)) :
    escapeshellarg m alloc str len
      = (put (target m alloc (UInt64.ofNat s.length * 4 + 1)) [] (quoteWord posix s ++ [0])).map
          (Prod.mk (UInt64.ofNat (quoteWord posix s).length)) := by
  obtain ⟨post, hstr⟩ := h.exists_append
  have hlen : (UInt64.ofNat s.length).toNat = s.length := UInt64.toNat_ofNat_of_lt' h.lt_size
  have htext : quoteWord posix s ++ [0]
      = posix.quote :: (s.flatMap (quoteLetter posix) ++ [posix.quote, 0]) := by
    rw [quoteWord, List.cons_append, List.append_assoc]
    rfl
  unfold escapeshellarg
  rw [h.escapeLen_eq, htext]
  show (store (overwrite [] (target m alloc (UInt64.ofNat s.length * 4 + 1))) 0 posix.quote >>= _)
    = _
  apply store_bind rfl (Nat.zero_le _)
  intro hy hw
  have hloop : escapeshellargLoop str s.length 0 1 _ = _ :=
    escapeshellargLoop_eq (show str = [] ++ (s ++ post) from hstr) rfl hy hw
  rw [hlen, hloop]
  apply put_bind
  intro hroom
  rw [← List.length_append] at hroom
  apply store_bind rfl hroom
  intro hy hw
  apply store_bind hy hw
  intro hy' hw'
  rw [put_nil hw']
  show Except.ok (UInt64.ofNat _, _) = Except.ok (UInt64.ofNat _, _)
  rw [hy]
  rfl

/-- The quoted string. -/
def quoteStr (s : CStr) : CStr where
  bytes := quoteWord posix s.bytes
  ne_zero b hb := by
    rcases mem_quoteWord hb with rfl | rfl | hmem
    · decide
    · decide
    · exact s.ne_zero b hmem

/-- What is written is a C string of length `*res_len`.  The shell reads it as one word, which is
the argument, and all of it is in single quotes but the single quotes, which are escaped. -/
theorem escapeshellarg_words {s : CStr} {size : UInt64} (h : Argument str len s.bytes)
    (hsize : cmd.length = size.toNat) (hroom : (quoteWord posix s.bytes).length < size.toNat)
    (m : Malloc) :
    ∃ (resLen : UInt64) (buf : List UInt8) (out : CStr) (w : Word UInt8),
      escapeshellarg m (some cmd) str len = .ok (resLen, buf) ∧
      out.At buf 0 ∧ resLen.toNat = out.strlen ∧
      words posix out.bytes = some [w] ∧ w.map Prod.snd = s.bytes ∧
      ∀ x ∈ w, x.1 = .single ∨ x.1 = .escaped ∧ x.2 = '\''.toUInt8 := by
  have hput : put cmd [] (quoteWord posix s.bytes ++ [0]) = _ := put_of_le (by
    rw [List.length_nil, Nat.zero_add, List.length_append, hsize]
    exact hroom)
  have hrun := escapeshellarg_eq h m (some cmd)
  unfold target at hrun
  dsimp only at hrun
  rw [hput] at hrun
  refine ⟨_, _, quoteStr s, s.bytes.map (preserved posix), hrun, ?_, ?_, words_quoteWord _,
    map_snd_preserved _, ?_⟩
  · refine ⟨cmd.drop (quoteWord posix s.bytes ++ [0]).length, ?_⟩
    rw [List.drop_zero, List.nil_append, overwrite, List.append_assoc]
    rfl
  · -- the text is shorter than the buffer, so its length fits in a `size_t`
    exact UInt64.toNat_ofNat_of_lt' (Nat.lt_trans hroom size.toNat_lt)
  · intro x hx
    obtain ⟨c, -, rfl⟩ := List.mem_map.mp hx
    exact preserved_cases c

/-- `it's`, with room for nine bytes and the terminator. -/
theorem escapeshellarg_words_quote :
    ∃ (resLen : UInt64) (buf : List UInt8) (out : CStr) (w : Word UInt8),
      escapeshellarg (.filled 0) (some [1, 2, 3, 4, 5, 6, 7, 8, 9, 10]) [0x69, 0x74, 0x27, 0x73] 4
        = .ok (resLen, buf) ∧
      out.At buf 0 ∧ resLen.toNat = out.strlen ∧
      words posix out.bytes = some [w] ∧ w.map Prod.snd = [0x69, 0x74, 0x27, 0x73] ∧
      ∀ x ∈ w, x.1 = .single ∨ x.1 = .escaped ∧ x.2 = '\''.toUInt8 :=
  escapeshellarg_words (s := ⟨[0x69, 0x74, 0x27, 0x73], CStr.ne_zero_of_all rfl⟩)
    (.counted [] (by decide) rfl rfl) (show _ = (10 : UInt64).toNat from rfl) (by decide) _

/-! ### The room for the worst case -/

/-- The size that is requested, which may have wrapped around. -/
theorem request_toNat (hlt : s.length < UInt64.size) :
    (UInt64.ofNat s.length * 4 + 1).toNat + s.length / 2 ^ 62 * 2 ^ 64 = s.length * 4 + 1 := by
  have hlen : (UInt64.ofNat s.length).toNat = s.length := UInt64.toNat_ofNat_of_lt' hlt
  rw [UInt64.toNat_add, UInt64.toNat_mul, hlen]
  show (s.length * 4 % 2 ^ 64 + 1) % 2 ^ 64 + _ = _
  omega

theorem count_lt_length_iff {x : UInt8} : s.count x < s.length ↔ ∃ b ∈ s, b ≠ x := by
  have hle : s.count x ≤ s.length := List.count_le_length
  rw [Nat.lt_iff_le_and_ne, and_iff_right hle, ne_eq, List.count_eq_length]
  push Not
  constructor
  · rintro ⟨b, hb, hne⟩
    exact ⟨b, hb, hne.symm⟩
  · rintro ⟨b, hb, hne⟩
    exact ⟨b, hb, hne.symm⟩

/-- The block that is requested has room for all that is written if and only if some byte of the
argument is not a single quote, and its size has not wrapped around, or has left enough. -/
theorem escapeshellarg_inside_iff {block : List UInt8} (h : Argument str len s) (m : Malloc)
    (hblock : m.block (UInt64.ofNat s.length * 4 + 1) = some block) :
    (∃ r, escapeshellarg m none str len = .ok r) ↔
      (∃ b ∈ s, b ≠ '\''.toUInt8) ∧ (s.length < 2 ^ 62 ∨
        3 * s.count '\''.toUInt8 + 2 + s.length / 2 ^ 62 * 2 ^ 64 ≤ 3 * s.length) := by
  have hrequest := request_toNat h.lt_size
  have hsize := m.length_eq _ _ hblock
  have hcount : posix.quote = '\''.toUInt8 := rfl
  have hle : s.count '\''.toUInt8 ≤ s.length := List.count_le_length
  -- the block must hold the quoted word and its terminator; the rest is counting
  have hok : (∃ r, escapeshellarg m none str len = .ok r) ↔
      (quoteWord posix s ++ [0]).length ≤ block.length := by
    rw [escapeshellarg_eq h m none, target, hblock, Option.getD_some, map_put_ok_iff,
      List.length_nil, Nat.zero_add]
  rw [hok, List.length_append, length_quoteWord, List.length_singleton, hcount,
    ← count_lt_length_iff]
  omega

/-- `"a'"`: a block of nine bytes, and all of them are written. -/
theorem escapeshellarg_inside_letter :
    (∃ r, escapeshellarg (.filled 0) none [0x61, 0x27, 0] 0 = .ok r) ↔
      (∃ b ∈ [0x61, 0x27], b ≠ '\''.toUInt8) ∧ ([0x61, (0x27 : UInt8)].length < 2 ^ 62 ∨
        3 * [0x61, 0x27].count '\''.toUInt8 + 2 + [0x61, (0x27 : UInt8)].length / 2 ^ 62 * 2 ^ 64
          ≤ 3 * [0x61, (0x27 : UInt8)].length) :=
  escapeshellarg_inside_iff (s := [0x61, 0x27])
    (.terminated [] rfl rfl (CStr.ne_zero_of_all rfl) (by decide)) (.filled 0) rfl

/-- A block of one byte for `""`, and of five for `"'"`. -/
theorem escapeshellarg_overruns :
    (Malloc.filled 0).block (0 * 4 + 1) = some [0] ∧
      escapeshellarg (.filled 0) none [0] 0 = .error (.write 1) ∧
      (Malloc.filled 0).block (1 * 4 + 1) = some [0, 0, 0, 0, 0] ∧
      escapeshellarg (.filled 0) none [0x27, 0] 1 = .error (.write 5) :=
  ⟨rfl, rfl, rfl, rfl⟩

end Bluetea.OldString
