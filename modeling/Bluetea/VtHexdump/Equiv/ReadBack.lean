import Bluetea.VtHexdump.Basic

/-!
# Reading a dump

The dump is a head of six lines, a line for each 16 bytes and one more, and a closing line
(`splitOn_vtHexdump`).  A reader that looks at the lines behind the head, as far as they begin with a
zero, gets the address and the bytes of each row, and so the whole block (`vtHexdump_readBack`).  The
macro does not read beyond the block.
-/

namespace Bluetea.VtHexdump

open Buffer (Fault load)
open Encoding
open Percent (hexValue?)

/-! ### The reader -/

def newline : UInt8 := '\n'.toUInt8

/-- The bytes of the columns, up to the first one without digits. -/
def readColumns : List UInt8 → List UInt8
  | h :: l :: _ :: rest =>
    match hexValue? h, hexValue? l with
    | some h, some l => UInt8.ofNat (h * 16 + l) :: readColumns rest
    | _, _ => []
  | _ => []

/-- The address of a row, and its bytes. -/
def readRow (line : List UInt8) : Option ℕ × List UInt8 :=
  (Hex.readDigits 0 ((line.drop 2).take 16), readColumns (line.drop 21))

/-- The rows of a dump. -/
def readRows (out : List UInt8) : List (Option ℕ × List UInt8) :=
  (((out.splitOn newline).drop 6).takeWhile fun line => line.head? == some '0'.toUInt8).map readRow

/-! ### What is printed -/

/-- The bytes of row `i`. -/
def rowBytes (bytes : List UInt8) (i : ℕ) : List UInt8 := (bytes.drop (16 * i)).take 16

def rowHead (addr : UInt64) (i : ℕ) : List UInt8 :=
  text "0x" ++ Hex.fixed 16 (addr + UInt64.ofNat i * 16).toNat ++ text "|  "

/-- Row `i`, without the newline. -/
def rowLine (addr : UInt64) (bytes : List UInt8) (i : ℕ) : List UInt8 :=
  rowHead addr i ++ (rowBytes bytes i).flatMap printHex ++ padLoop (16 - (rowBytes bytes i).length)
    ++ text " |" ++ (rowBytes bytes i).flatMap printChar ++ text "|"

def headLines (file : List UInt8) (line : ℕ) (func : List UInt8) (addr : UInt64) (size : ℕ) :
    List (List UInt8) :=
  [text "================== VT_HEXDUMP ==================",
    text "File\t\t: " ++ file ++ text ":" ++ decimal line,
    text "Function\t: " ++ func ++ text "()",
    text "Address\t\t: 0x" ++ Hex.fixed 16 addr.toNat,
    text "Dump size\t: " ++ decimal size ++ text " bytes",
    []]

def footLine : List UInt8 := text "================================================"

/-- The lines of the dump. -/
def dumpLines (file : List UInt8) (line : ℕ) (func : List UInt8) (addr : UInt64)
    (bytes : List UInt8) : List (List UInt8) :=
  headLines file line func addr bytes.length
    ++ (List.range' 0 (bytes.length / 16 + 1)).map (rowLine addr bytes) ++ [footLine]

/-- Lines, each with a newline behind it. -/
def unlines (ls : List (List UInt8)) : List UInt8 := ls.flatMap (· ++ [newline])

theorem unlines_append (ls ls' : List (List UInt8)) :
    unlines (ls ++ ls') = unlines ls ++ unlines ls' :=
  List.flatMap_append

theorem unlines_cons (l : List UInt8) (ls : List (List UInt8)) :
    unlines (l :: ls) = l ++ ([newline] ++ unlines ls) := by
  rw [unlines, List.flatMap_cons, List.append_assoc, unlines]

/-- A literal that ends a line. -/
theorem text_newline (s : String) : text (s ++ "\n") = text s ++ [newline] := by
  rw [text, String.toList_append, BlueTest.literal, List.map_append, text, BlueTest.literal]
  rfl

variable {bytes rest : List UInt8}

theorem load_append (bytes rest : List UInt8) {k : ℕ} (hk : k < bytes.length) :
    load (bytes ++ rest) k = .ok bytes[k] := by
  rw [Buffer.load_of_lt (by rw [List.length_append]; omega), List.getElem_append_left hk]

/-- A loop over the columns prints what is left of the block, at most `n` bytes. -/
theorem columnLoop_eq (print : UInt8 → List UInt8) (bytes rest : List UInt8) (n k : ℕ) :
    columnLoop print (bytes ++ rest) bytes.length n k
      = .ok (n - ((bytes.drop k).take n).length, k + ((bytes.drop k).take n).length,
          ((bytes.drop k).take n).flatMap print) := by
  induction n generalizing k with
  | zero =>
    rw [List.take_zero]
    rfl
  | succ n ih =>
    rw [columnLoop]
    by_cases hk : k < bytes.length
    · rw [if_pos hk, load_append bytes rest hk, List.drop_eq_getElem_cons hk, List.take_succ_cons,
        List.length_cons, List.flatMap_cons]
      show (columnLoop print (bytes ++ rest) bytes.length n (k + 1) >>= _) = _
      rw [ih]
      show Except.ok (_, _, _) = Except.ok (_, _, _)
      congr 2
      · omega
      · congr 1
        omega
    · rw [if_neg hk, List.drop_eq_nil_of_le (Nat.le_of_not_lt hk), List.take_nil]
      rfl

/-- At the beginning of a row all rows in front of it are full. -/
theorem rowLoop_eq (addr : UInt64) (bytes rest : List UInt8) {n i : ℕ}
    (h : i + n = bytes.length / 16 + 1) :
    rowLoop addr (bytes ++ rest) bytes.length n i (16 * i)
      = .ok (unlines ((List.range' i n).map (rowLine addr bytes))) := by
  induction n generalizing i with
  | zero => rfl
  | succ n ih =>
    have hrow : rowBytes bytes i = (bytes.drop (16 * i)).take 16 := rfl
    rw [rowLoop]
    simp only [columnLoop_eq, bind, Except.bind, ← hrow]
    have hrest : rowLoop addr (bytes ++ rest) bytes.length n (i + 1)
        (16 * i + (rowBytes bytes i).length)
        = .ok (unlines ((List.range' (i + 1) n).map (rowLine addr bytes))) := by
      -- only the last row may be short, so every row that another one follows has 16 bytes
      cases n with
      | zero => rfl
      | succ n =>
        have hfull : (rowBytes bytes i).length = 16 := by
          rw [rowBytes, List.length_take, List.length_drop]
          omega
        rw [hfull, ← Nat.mul_succ]
        exact ih (by omega)
    rw [hrest, List.range'_succ, List.map_cons, unlines_cons, rowLine, rowHead,
      show text "|\n" = text "|" ++ [newline] from text_newline "|"]
    simp only [List.append_assoc]
    rfl

/-- The call prints the lines of the dump, and reads the block only. -/
theorem vtHexdump_eq (file : List UInt8) (line : ℕ) (func : List UInt8) (addr : UInt64)
    {size : UInt64} (hsize : bytes.length = size.toNat) (rest : List UInt8) :
    vtHexdump file line func addr (bytes ++ rest) size
      = .ok (unlines (dumpLines file line func addr bytes)) := by
  have hrows : rowLoop addr (bytes ++ rest) bytes.length (bytes.length / 16 + 1) 0 0 = _ :=
    rowLoop_eq addr bytes rest (Nat.zero_add _)
  rw [vtHexdump, ← hsize, hrows, dumpLines, headLines, footLine,
    show text "================== VT_HEXDUMP ==================\n" = _ from
      text_newline "================== VT_HEXDUMP ==================",
    show text "()\n" = _ from text_newline "()", show text " bytes\n" = _ from text_newline " bytes",
    show text "================================================\n" = _ from
      text_newline "================================================",
    show text "\n" = [newline] from rfl]
  simp only [bind, Except.bind, pure, Except.pure, unlines_append, unlines_cons, List.append_assoc,
    List.nil_append]
  rfl

/-! ### The bytes of the dump -/

/-- A byte that a terminal shows as one character. -/
def Printable (b : UInt8) : Prop := 32 ≤ b.toNat ∧ b.toNat ≤ 126

theorem Printable.ne_newline {b : UInt8} (h : Printable b) : b ≠ newline := by
  rintro rfl
  exact absurd h.1 (by decide)

/-- Checks a literal byte by byte. -/
theorem printable_of_all {s : List UInt8} (h : (s.all fun b => 32 ≤ b && b ≤ 126) = true)
    {b : UInt8} (hb : b ∈ s) : Printable b := by
  have hcheck := List.all_eq_true.mp h b hb
  simp only [Bool.and_eq_true, decide_eq_true_eq, UInt8.le_iff_toNat_le] at hcheck
  exact hcheck

theorem printable_fixed {w n : ℕ} {b : UInt8} (h : b ∈ Hex.fixed w n) : Printable b := by
  have hrange := Hex.of_mem_fixed h
  exact ⟨by omega, by omega⟩

theorem printable_decimal {n : ℕ} {b : UInt8} (h : b ∈ decimal n) : Printable b := by
  obtain ⟨c, hc, rfl⟩ := List.mem_map.mp h
  have hdigit := Nat.isDigit_of_mem_toDigits (by decide) (by decide) hc
  simp only [Char.isDigit, ge_iff_le, Bool.and_eq_true, decide_eq_true_eq,
    UInt32.le_iff_toNat_le] at hdigit
  change 48 ≤ c.val.toNat ∧ c.val.toNat ≤ 57 at hdigit
  have hval : c.toUInt8.toNat = c.val.toNat % 256 := UInt32.toNat_toUInt8 c.val
  exact ⟨by omega, by omega⟩

theorem printable_chdot (c : UInt8) : Printable (chdot c) := by
  rw [chdot]
  split_ifs with h
  · simp only [UInt8.le_iff_toNat_le] at h
    exact h
  · exact ⟨by decide, by decide⟩

theorem printable_padLoop {n : ℕ} {b : UInt8} (h : b ∈ padLoop n) : Printable b := by
  induction n with
  | zero => cases h
  | succ n ih =>
    rcases List.mem_append.mp h with h | h
    · exact printable_of_all rfl h
    · exact ih h

theorem printable_rowLine {addr : UInt64} {i : ℕ} {b : UInt8} (h : b ∈ rowLine addr bytes i) :
    Printable b := by
  simp only [rowLine, rowHead, List.mem_append, List.mem_flatMap] at h
  rcases h with ((((((h | h) | h) | ⟨c, -, h⟩) | h) | h) | ⟨c, -, h⟩) | h
  · exact printable_of_all rfl h
  · exact printable_fixed h
  · exact printable_of_all rfl h
  · rcases List.mem_append.mp h with h | h
    · exact printable_fixed h
    · exact printable_of_all rfl h
  · exact printable_padLoop h
  · exact printable_of_all rfl h
  · rw [List.mem_singleton.mp h]
    exact printable_chdot c
  · exact printable_of_all rfl h

/-- A byte that may be in the dump, but for the newlines. -/
def Shown (file func : List UInt8) (b : UInt8) : Prop :=
  Printable b ∨ b = '\t'.toUInt8 ∨ b ∈ file ∨ b ∈ func

theorem shown_of_all {file func s : List UInt8}
    (h : (s.all fun b => b == '\t'.toUInt8 || (32 ≤ b && b ≤ 126)) = true) {b : UInt8} (hb : b ∈ s) :
    Shown file func b := by
  have hcheck := List.all_eq_true.mp h b hb
  simp only [Bool.or_eq_true, beq_iff_eq, Bool.and_eq_true, decide_eq_true_eq,
    UInt8.le_iff_toNat_le] at hcheck
  exact hcheck.elim (fun htab => Or.inr (Or.inl htab)) Or.inl

theorem shown_headLines {file func : List UInt8} {line size : ℕ} {addr : UInt64}
    {l : List UInt8} (hl : l ∈ headLines file line func addr size) {b : UInt8} (hb : b ∈ l) :
    Shown file func b := by
  simp only [headLines, List.mem_cons, List.not_mem_nil, or_false] at hl
  -- one case for each line; only the second and the third hold a text of the caller
  rcases hl with rfl | rfl | rfl | rfl | rfl | rfl
  · exact shown_of_all rfl hb
  · simp only [List.mem_append] at hb
    rcases hb with ((hb | hb) | hb) | hb
    · exact shown_of_all rfl hb
    · exact Or.inr (Or.inr (Or.inl hb))
    · exact shown_of_all rfl hb
    · exact Or.inl (printable_decimal hb)
  · simp only [List.mem_append] at hb
    rcases hb with (hb | hb) | hb
    · exact shown_of_all rfl hb
    · exact Or.inr (Or.inr (Or.inr hb))
    · exact shown_of_all rfl hb
  · rcases List.mem_append.mp hb with hb | hb
    · exact shown_of_all rfl hb
    · exact Or.inl (printable_fixed hb)
  · simp only [List.mem_append] at hb
    rcases hb with (hb | hb) | hb
    · exact shown_of_all rfl hb
    · exact Or.inl (printable_decimal hb)
    · exact shown_of_all rfl hb
  · cases hb

theorem shown_dumpLines {file func : List UInt8} {line : ℕ} {addr : UInt64} {l : List UInt8}
    (hl : l ∈ dumpLines file line func addr bytes) {b : UInt8} (hb : b ∈ l) : Shown file func b := by
  simp only [dumpLines, List.mem_append, List.mem_map, List.mem_singleton] at hl
  rcases hl with (hl | ⟨i, -, rfl⟩) | rfl
  · exact shown_headLines hl hb
  · exact Or.inl (printable_rowLine hb)
  · exact shown_of_all rfl hb

/-! ### Reading -/

theorem splitOn_unlines {ls : List (List UInt8)} (h : ∀ l ∈ ls, newline ∉ l) :
    (unlines ls).splitOn newline = ls ++ [[]] := by
  induction ls with
  | nil => rfl
  | cons l ls ih =>
    rw [unlines_cons, List.singleton_append,
      List.splitOn_append_cons_self_of_not_mem (h l (List.mem_cons_self ..)),
      ih fun l' hl' => h l' (List.mem_cons_of_mem _ hl'), List.cons_append]

/-- A blank ends the columns. -/
theorem readColumns_blank (l : List UInt8) : readColumns (' '.toUInt8 :: l) = [] := by
  rcases l with - | ⟨a, - | ⟨b, l⟩⟩ <;> rfl

theorem readColumns_printHex (c : UInt8) (l : List UInt8) :
    readColumns (printHex c ++ l) = c :: readColumns l := by
  have hlt := c.toNat_lt
  have hhigh : hexValue? (Hex.digit (c.toNat / 16 % 16)) = some (c.toNat / 16 % 16) :=
    Hex.hexValue?_digit (Nat.mod_lt _ (by decide))
  have hlow : hexValue? (Hex.digit (c.toNat % 16)) = some (c.toNat % 16) :=
    Hex.hexValue?_digit (Nat.mod_lt _ (by decide))
  have hval : c.toNat / 16 % 16 * 16 + c.toNat % 16 = c.toNat := by omega
  show readColumns (Hex.digit (c.toNat / 16 % 16) :: Hex.digit (c.toNat % 16) :: _ :: l) = _
  rw [readColumns, hhigh, hlow]
  show UInt8.ofNat _ :: readColumns l = _
  rw [hval, UInt8.ofNat_toNat]

theorem readColumns_flatMap (bytes : List UInt8) (n : ℕ) (l : List UInt8) :
    readColumns (bytes.flatMap printHex ++ (padLoop n ++ (' '.toUInt8 :: l))) = bytes := by
  induction bytes with
  | nil =>
    cases n with
    | zero => exact readColumns_blank l
    | succ n => exact readColumns_blank _
  | cons c bytes ih => rw [List.flatMap_cons, List.append_assoc, readColumns_printHex, ih]

theorem readRow_rowLine (addr : UInt64) (bytes : List UInt8) (i : ℕ) :
    readRow (rowLine addr bytes i)
      = (some (addr + UInt64.ofNat i * 16).toNat, rowBytes bytes i) := by
  have hlength : (rowHead addr i).length = 21 := by
    rw [rowHead, List.length_append, List.length_append, Hex.length_fixed]
    rfl
  have hcolumns : (rowLine addr bytes i).drop 21 = (rowBytes bytes i).flatMap printHex
      ++ (padLoop (16 - (rowBytes bytes i).length)
        ++ (' '.toUInt8 :: ('|'.toUInt8 :: ((rowBytes bytes i).flatMap printChar ++ text "|")))) := by
    rw [rowLine, ← hlength]
    simp only [List.append_assoc, List.drop_left]
    rfl
  have haddr : ((rowLine addr bytes i).drop 2).take 16
      = Hex.fixed 16 (addr + UInt64.ofNat i * 16).toNat := by
    rw [rowLine, rowHead]
    simp only [List.append_assoc]
    rw [List.drop_left' (show (text "0x").length = 2 from rfl),
      List.take_left' (Hex.length_fixed 16 _)]
  rw [readRow, hcolumns, readColumns_flatMap, haddr, Hex.readDigits_fixed, Nat.zero_mul,
    Nat.zero_add, Nat.mod_eq_of_lt]
  exact (addr + UInt64.ofNat i * 16).toNat_lt

/-- The rows hold the block, 16 bytes each. -/
theorem flatMap_rowBytes (bytes : List UInt8) (i n : ℕ) :
    (List.range' i n).flatMap (rowBytes bytes) = (bytes.drop (16 * i)).take (16 * n) := by
  induction n generalizing i with
  | zero => rfl
  | succ n ih =>
    rw [List.range'_succ, List.flatMap_cons, ih, rowBytes, Nat.mul_succ 16 i, ← List.drop_drop,
      Nat.mul_succ, Nat.add_comm (16 * n), List.take_add]

/-- What the reader gets from the lines of a dump. -/
theorem readRows_dumpLines {file func : List UInt8} (hfile : newline ∉ file)
    (hfunc : newline ∉ func) (line : ℕ) (addr : UInt64) (bytes : List UInt8) :
    readRows (unlines (dumpLines file line func addr bytes))
      = (List.range' 0 (bytes.length / 16 + 1)).map fun i =>
          (some (addr + UInt64.ofNat i * 16).toNat, rowBytes bytes i) := by
  -- names without a newline, so the text is cut where the dump put its newlines
  have hlines : ∀ l ∈ dumpLines file line func addr bytes, newline ∉ l := by
    intro l hl hmem
    rcases shown_dumpLines hl hmem with hb | hb | hb | hb
    · exact hb.ne_newline rfl
    · exact absurd hb (by decide)
    · exact hfile hb
    · exact hfunc hb
  -- the rows are the lines that start with the `0` of their address
  have hrows : ∀ l ∈ (List.range' 0 (bytes.length / 16 + 1)).map (rowLine addr bytes),
      (l.head? == some '0'.toUInt8) = true := by
    intro l hl
    obtain ⟨i, -, rfl⟩ := List.mem_map.mp hl
    rfl
  have hdrop : ∀ ls : List (List UInt8),
      (headLines file line func addr bytes.length ++ ls).drop 6 = ls := fun ls => rfl
  rw [readRows, splitOn_unlines hlines, dumpLines, List.append_assoc, List.append_assoc, hdrop,
    List.takeWhile_append_of_pos hrows]
  show List.map readRow (_ ++ []) = _
  rw [List.append_nil, List.map_map]
  exact List.map_congr_left fun i _ => readRow_rowLine addr bytes i

/-- **A dump can be read back**: the address and the bytes of each row, and so the block.  It is made
of printable characters, tabs and newlines, but for the names of the file and the function. -/
theorem vtHexdump_readBack {file func : List UInt8} (hfile : newline ∉ file)
    (hfunc : newline ∉ func) (line : ℕ) (addr : UInt64) {size : UInt64}
    (hsize : bytes.length = size.toNat) (rest : List UInt8) :
    ∃ out, vtHexdump file line func addr (bytes ++ rest) size = .ok out ∧
      readRows out = ((List.range' 0 (bytes.length / 16 + 1)).map fun i =>
        (some (addr + UInt64.ofNat i * 16).toNat, (bytes.drop (16 * i)).take 16)) ∧
      (readRows out).flatMap Prod.snd = bytes ∧
      ∀ b ∈ out, Shown file func b ∨ b = newline := by
  have hread := readRows_dumpLines hfile hfunc line addr bytes
  refine ⟨_, vtHexdump_eq file line func addr hsize rest, hread, ?_, ?_⟩
  · rw [hread, List.flatMap_map]
    show (List.range' 0 _).flatMap (rowBytes bytes) = bytes
    rw [flatMap_rowBytes, Nat.mul_zero, List.drop_zero, List.take_of_length_le (by omega)]
  · intro b hb
    obtain ⟨l, hl, hbl⟩ := List.mem_flatMap.mp hb
    rcases List.mem_append.mp hbl with hbl | hbl
    · exact Or.inl (shown_dumpLines hl hbl)
    · exact Or.inr (List.mem_singleton.mp hbl)

/-- 17 bytes. -/
theorem vtHexdump_readBack_two :
    ∃ out, vtHexdump (text "a.c") 1 (text "f") 16 (List.replicate 17 0xab ++ [0]) 17 = .ok out ∧
      readRows out = ((List.range' 0 (17 / 16 + 1)).map fun i =>
        (some ((16 : UInt64) + UInt64.ofNat i * 16).toNat,
          ((List.replicate 17 0xab).drop (16 * i)).take 16)) ∧
      (readRows out).flatMap Prod.snd = List.replicate 17 0xab ∧
      ∀ b ∈ out, Shown (text "a.c") (text "f") b ∨ b = newline :=
  vtHexdump_readBack (by decide) (by decide) 1 16 rfl [0]

end Bluetea.VtHexdump
