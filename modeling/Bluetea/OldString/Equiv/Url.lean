import Bluetea.Encoding.Percent
import Bluetea.OldString.Basic

/-!
# URL encoding

`urlencode` is percent encoding (`urlencode_eq`): the chain of range tests leaves exactly the
unreserved bytes (`isEscaped_eq`), without `~` when `raw` is not set.  So the text can be decoded
(`urlencode_reversible`).
-/

namespace Bluetea.OldString

open Buffer Encoding Percent

/-- A letter, a digit, `-`, `.` or `_`. -/
def isPlain (c : UInt8) : Bool :=
  ('A'.toUInt8 ≤ c && c ≤ 'Z'.toUInt8) || ('a'.toUInt8 ≤ c && c ≤ 'z'.toUInt8) ||
    ('0'.toUInt8 ≤ c && c ≤ '9'.toUInt8) || c == '-'.toUInt8 || c == '.'.toUInt8 ||
    c == '_'.toUInt8

/-- The bytes that are written as they are. -/
def isKept (raw : Bool) (c : UInt8) : Bool := isPlain c || (raw && c == '~'.toUInt8)

/-- The alphabet of the encoder. -/
def isUrlByte (raw : Bool) (c : UInt8) : Bool :=
  isPlain c || c == '%'.toUInt8 || (raw && c == '~'.toUInt8) || (!raw && c == '+'.toUInt8)

variable {str buf : List UInt8} {len : UInt64} {raw : Bool}

theorem isEscaped_eq (raw : Bool) (c : UInt8) : isEscaped raw c = !isKept raw c := by
  rw [Bool.eq_iff_iff]
  unfold isEscaped isKept isPlain
  cases raw
  · simp [← UInt8.toNat_inj, UInt8.lt_iff_toNat_lt, UInt8.le_iff_toNat_le, Char.toUInt8]
    omega
  · simp [← UInt8.toNat_inj, UInt8.lt_iff_toNat_lt, UInt8.le_iff_toNat_le, Char.toUInt8]
    omega

theorem decodable_isKept (raw : Bool) : Decodable (!raw) (isKept raw) := by
  cases raw
  · exact ⟨by decide, fun _ => by decide⟩
  · exact ⟨by decide, fun _ => by decide⟩

theorem isPlain_of_isUpperHex {b : UInt8} (h : isUpperHex b) : isPlain b := by
  unfold isUpperHex at h
  unfold isPlain
  simp [UInt8.le_iff_toNat_le, Char.toUInt8] at h ⊢
  omega

/-- `hexchars[i]` -/
theorem load_hexchars {i : ℕ} (h : i < 16) : load hexchars i = .ok (hexDigit i) := by
  have hall : ∀ i < 16, hexchars[i]? = some (hexDigit i) := by decide
  rw [load, hall i h]

theorem load_hexchars_high (c : UInt8) :
    load hexchars (c >>> 4).toNat = .ok (hexDigit (c.toNat / 16)) := by
  have hshift : (c >>> 4).toNat = c.toNat / 16 := by
    rw [UInt8.toNat_shiftRight]
    exact Nat.shiftRight_eq_div_pow _ 4
  rw [hshift, load_hexchars (high_lt c)]

theorem load_hexchars_low (c : UInt8) :
    load hexchars (c &&& 15).toNat = .ok (hexDigit (c.toNat % 16)) := by
  have hand : (c &&& 15).toNat = c.toNat % 16 := by
    rw [UInt8.toNat_and]
    exact Nat.and_two_pow_sub_one_eq_mod _ 4
  rw [hand, load_hexchars (low_lt c)]

/-- What is written is in the alphabet. -/
theorem isUrlByte_of_mem {s : List UInt8} {b : UInt8}
    (hb : b ∈ s.flatMap (code (!raw) (isKept raw))) : isUrlByte raw b := by
  unfold isUrlByte
  rcases mem_flatMap_code hb with hkeep | hhex | rfl | ⟨hplus, rfl⟩
  · unfold isKept at hkeep
    rcases Bool.or_eq_true_iff.mp hkeep with hplain | htilde
    · rw [hplain]
      rfl
    · rw [htilde, Bool.or_true, Bool.true_or]
  · rw [isPlain_of_isUpperHex hhex]
    rfl
  · rfl
  · rw [hplus]
    exact Bool.or_true _

/-- The loop, behind what has been read and written. -/
theorem urlencodeLoop_eq {pre s post w : List UInt8} {x y : ℕ} (hstr : str = pre ++ (s ++ post))
    (hx : x = pre.length) (hy : y = w.length) (hw : w.length ≤ buf.length) :
    urlencodeLoop str raw s.length x y (overwrite w buf)
      = (put buf w (s.flatMap (code (!raw) (isKept raw)))).map
          (Prod.mk (w ++ s.flatMap (code (!raw) (isKept raw))).length) := by
  induction s generalizing pre w x y with
  | nil =>
    rw [List.flatMap_nil, put_nil hw, List.append_nil, ← hy]
    rfl
  | cons c s ih =>
    obtain ⟨hload, hnext, hx⟩ := load_next hstr hx
    rw [List.length_cons, urlencodeLoop, hload, List.flatMap_cons]
    show (if _ then _ else _) = _
    unfold code
    by_cases hspace : !raw && c == ' '.toUInt8
    · rw [if_pos hspace, if_pos hspace]
      apply store_bind hy hw
      intro hy hw
      rw [ih hnext hx hy hw, List.append_assoc]
      rfl
    · rw [if_neg hspace, if_neg hspace, isEscaped_eq]
      by_cases hkeep : isKept raw c
      · rw [hkeep, if_neg (by decide), if_pos rfl]
        apply store_bind hy hw
        intro hy hw
        rw [ih hnext hx hy hw, List.append_assoc]
        rfl
      · rw [Bool.eq_false_iff.mpr hkeep, if_pos (by decide), if_neg (by decide)]
        -- three stores: the percent sign and two digits
        apply store_bind hy hw
        intro hy hw
        rw [load_hexchars_high]
        apply store_bind hy hw
        intro hy hw
        rw [load_hexchars_low]
        apply store_bind hy hw
        intro hy hw
        rw [ih hnext hx hy hw]
        simp only [List.append_assoc]
        rfl

/-- The call as a whole: the encoded bytes and the terminator are written, as far as there is room
for them. -/
theorem urlencode_eq {s : List UInt8} (hlen : s.length = len.toNat) (post : List UInt8)
    (m : Malloc) (alloc : Option (List UInt8)) (raw : Bool) :
    urlencode m alloc (s ++ post) len raw
      = put (target m alloc (len * 3 + 1)) [] (s.flatMap (code (!raw) (isKept raw)) ++ [0]) := by
  have hloop : urlencodeLoop (s ++ post) raw s.length 0 0
      (overwrite [] (target m alloc (len * 3 + 1))) = _ :=
    urlencodeLoop_eq (show _ = [] ++ (s ++ post) from rfl) rfl rfl (Nat.zero_le _)
  unfold urlencode
  rw [← hlen]
  show (urlencodeLoop (s ++ post) raw s.length 0 0
    (overwrite [] (target m alloc (len * 3 + 1))) >>= _) = _
  rw [hloop]
  generalize target m alloc (len * 3 + 1) = start
  -- the terminator may be the one byte that does not fit
  have hput : ∀ text : List UInt8,
      ((put start [] text).map (Prod.mk ([] ++ text).length) >>= fun p => store p.2 p.1 0)
        = (put start [] (text ++ [0])).map id := by
    intro text
    apply put_bind
    intro hroom
    rw [← List.length_append] at hroom
    rw [Except.map_id]
    exact store_eq_put hroom 0
  rw [hput, Except.map_id]
  rfl

/-- What is written, as far as there is room, is the encoded text and the terminator.  These are at
most `3 * len + 1` bytes, the text is in the alphabet of the encoder, each `%` in it begins an
escape, and it can be decoded. -/
theorem urlencode_reversible {s post : List UInt8} (hlen : s.length = len.toNat) (m : Malloc)
    (alloc : Option (List UInt8)) (raw : Bool) :
    ∃ out, urlencode m alloc (s ++ post) len raw
        = put (target m alloc (len * 3 + 1)) [] (out ++ [0]) ∧
      (out ++ [0]).length ≤ 3 * len.toNat + 1 ∧
      (3 * len.toNat + 1 ≤ (target m alloc (len * 3 + 1)).length →
        urlencode m alloc (s ++ post) len raw
          = .ok (overwrite (out ++ [0]) (target m alloc (len * 3 + 1)))) ∧
      (∀ b ∈ out, isUrlByte raw b) ∧
      (∀ i, out[i]? = some '%'.toUInt8 →
        ∃ x y, out[i + 1]? = some x ∧ isUpperHex x ∧ out[i + 2]? = some y ∧ isUpperHex y) ∧
      decode (!raw) out = some s := by
  have hrun := urlencode_eq hlen post m alloc raw
  -- three bytes for one at most, and one for the terminator
  have hlength : (s.flatMap (code (!raw) (isKept raw)) ++ [0]).length ≤ 3 * len.toNat + 1 := by
    rw [List.length_append, ← hlen]
    exact Nat.succ_le_succ (length_flatMap_code_le ..)
  refine ⟨_, hrun, hlength, ?_, ?_, ?_, ?_⟩
  · intro hroom
    rw [hrun, put_of_le (by rw [List.length_nil, Nat.zero_add]; exact Nat.le_trans hlength hroom)]
    rfl
  · intro b hb
    exact isUrlByte_of_mem hb
  · intro i hi
    exact percent_followed (decodable_isKept raw) hi
  · exact decode_flatMap_code (decodable_isKept raw) s

/-- `a b` -/
theorem urlencode_reversible_space :
    ∃ out, urlencode (.filled 0xff) none ([0x61, 0x20, 0x62] ++ []) 3 false
        = put (target (.filled 0xff) none (3 * 3 + 1)) [] (out ++ [0]) ∧
      (out ++ [0]).length ≤ 3 * (3 : UInt64).toNat + 1 ∧
      (3 * (3 : UInt64).toNat + 1 ≤ (target (.filled 0xff) none (3 * 3 + 1)).length →
        urlencode (.filled 0xff) none ([0x61, 0x20, 0x62] ++ []) 3 false
          = .ok (overwrite (out ++ [0]) (target (.filled 0xff) none (3 * 3 + 1)))) ∧
      (∀ b ∈ out, isUrlByte false b) ∧
      (∀ i, out[i]? = some '%'.toUInt8 →
        ∃ x y, out[i + 1]? = some x ∧ isUpperHex x ∧ out[i + 2]? = some y ∧ isUpperHex y) ∧
      decode (!false) out = some [0x61, 0x20, 0x62] :=
  urlencode_reversible rfl (.filled 0xff) none false

end Bluetea.OldString
