import Bluetea.CString.Buffer

/-!
# Copying and truncating in the old string library

`sane_strncpy` in `include/bluetea/lib/string.h` and `trunc_str` in `lib/string.c`.  A `char *` argument
is the memory from there on.
-/

namespace Bluetea.OldString

open Buffer (Fault load store)

/-- The zeros that `strncpy` writes behind the string, `n` of them from index `i` on. -/
def padLoop : ℕ → ℕ → List UInt8 → Except Fault (List UInt8)
  | 0, _, dest => .ok dest
  | n + 1, i, dest => do
    let dest ← store dest i 0
    padLoop n (i + 1) dest

/-- `strncpy`, with `n` bytes left to write from index `i` on. -/
def strncpyLoop (src : List UInt8) : ℕ → ℕ → List UInt8 → Except Fault (List UInt8)
  | 0, _, dest => .ok dest
  | n + 1, i, dest => do
    let c ← load src i
    if c = 0 then padLoop (n + 1) i dest
    else
      let dest ← store dest i c
      strncpyLoop src n (i + 1) dest

def strncpy (dest src : List UInt8) (n : UInt64) : Except Fault (List UInt8) :=
  strncpyLoop src n.toNat 0 dest

def saneStrncpy (dest src : List UInt8) (n : UInt64) : Except Fault (List UInt8) := do
  let dest ← strncpy dest src (n - 1)
  store dest (n - 1).toNat 0

/-- `strnlen`, with `n` bytes left to look at from index `i` on. -/
def strnlenLoop (str : List UInt8) : ℕ → ℕ → Except Fault ℕ
  | 0, i => .ok i
  | n + 1, i => do
    let c ← load str i
    if c = 0 then return i else strnlenLoop str n (i + 1)

def truncStr (str : List UInt8) (n : UInt64) : Except Fault (List UInt8) := do
  let len ← strnlenLoop str n.toNat 0
  if len < n.toNat then return str
  store str n.toNat 0

end Bluetea.OldString
