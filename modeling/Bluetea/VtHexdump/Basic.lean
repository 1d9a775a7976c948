import Bluetea.BlueTest.Process
import Bluetea.CString.Buffer
import Bluetea.Encoding.Hex

/-!
# The dump of a block of memory

`include/bluetea/vt_hexdump.h`.  The model has the bytes that the macro prints.  `__ptr` is the memory
from there on, and `addr` the address of its first byte.
-/

namespace Bluetea.VtHexdump

open Buffer (Fault load)
open Encoding

/-- A string literal. -/
def text (s : String) : List UInt8 := BlueTest.literal s.toList

/-- `%d` and `%zu`, of a number that is not negative. -/
def decimal (n : ℕ) : List UInt8 := BlueTest.literal (Nat.toDigits 10 n)

/-- `CHDOT(C)` -/
def chdot (c : UInt8) : UInt8 := if 32 ≤ c ∧ c ≤ 126 then c else '.'.toUInt8

/-- `"%02x "` -/
def printHex (c : UInt8) : List UInt8 := Hex.fixed 2 c.toNat ++ text " "

/-- `"%c"`, of `CHDOT` -/
def printChar (c : UInt8) : List UInt8 := [chdot c]

/-- The two loops over the bytes of a row, with `n` columns left: the columns that are left at its
end, the index then, and what has been printed. -/
def columnLoop (print : UInt8 → List UInt8) (ptr : List UInt8) (size : ℕ) :
    ℕ → ℕ → Except Fault (ℕ × ℕ × List UInt8)
  | 0, k => .ok (0, k, [])
  | n + 1, k =>
    if k < size then do
      let c ← load ptr k
      let (n, k, out) ← columnLoop print ptr size n (k + 1)
      return (n, k, print c ++ out)
    else .ok (n + 1, k, [])

/-- `while (j++ < 16)`, with `n` columns left. -/
def padLoop : ℕ → List UInt8
  | 0 => []
  | n + 1 => text "   " ++ padLoop n

/-- The loop over the rows, with `n` rows left. -/
def rowLoop (addr : UInt64) (ptr : List UInt8) (size : ℕ) :
    ℕ → ℕ → ℕ → Except Fault (List UInt8)
  | 0, _, _ => .ok []
  | n + 1, i, k => do
    let head := text "0x" ++ Hex.fixed 16 (addr + UInt64.ofNat i * 16).toNat ++ text "|  "
    let l := k
    let (j, k, hexes) ← columnLoop printHex ptr size 16 k
    let (_, _, chars) ← columnLoop printChar ptr size 16 l
    let rows ← rowLoop addr ptr size n (i + 1) k
    return head ++ hexes ++ padLoop j ++ text " |" ++ chars ++ text "|\n" ++ rows

/-- `VT_HEXDUMP(PTR, SIZE)` -/
def vtHexdump (file : List UInt8) (line : ℕ) (func : List UInt8) (addr : UInt64)
    (ptr : List UInt8) (size : UInt64) : Except Fault (List UInt8) := do
  let head := text "================== VT_HEXDUMP ==================\n"
    ++ text "File\t\t: " ++ file ++ text ":" ++ decimal line ++ text "\n"
    ++ text "Function\t: " ++ func ++ text "()\n"
    ++ text "Address\t\t: 0x" ++ Hex.fixed 16 addr.toNat ++ text "\n"
    ++ text "Dump size\t: " ++ decimal size.toNat ++ text " bytes\n"
    ++ text "\n"
  let rows ← rowLoop addr ptr size.toNat (size.toNat / 16 + 1) 0 0
  return head ++ rows ++ text "================================================\n"

end Bluetea.VtHexdump
