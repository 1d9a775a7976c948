import Bluetea.CString.Buffer

/-!
# The trimmers

`src/bluetea/lib/string/strtrim.c`.  A pointer is an index of the buffer.  The pointer `end` of the
source can be in front of its beginning, so the model has the index of `end[1]` instead.
-/

namespace Bluetea.Strtrim

/-- An access outside of the buffer. -/
inductive Fault
  | before
  | buffer (f : Buffer.Fault)
  deriving DecidableEq, Repr

def load (buf : List UInt8) (i : ℕ) : Except Fault UInt8 :=
  (Buffer.load buf i).mapError .buffer

def store (buf : List UInt8) (i : ℕ) (c : UInt8) : Except Fault (List UInt8) :=
  (Buffer.store buf i c).mapError .buffer

def memmove (buf : List UInt8) (dst src n : ℕ) : Except Fault (List UInt8) :=
  (Buffer.memmove buf dst src n).mapError .buffer

/-- The bytes up to the first NUL. -/
def strlen (buf : List UInt8) (str : ℕ) : Except Fault UInt64 :=
  match (buf.drop str).findIdx? (· == 0) with
  | some n => .ok (UInt64.ofNat n)
  | none => .error (.buffer (.read buf.length))

/-- `isspace`, in the C locale. -/
def isWs (c : UInt8) : Bool := c == 0x20 || (0x09 ≤ c && c ≤ 0x0d)

/-- `while (is_ws(*str))`, with `n` bytes from `str` to `end[1]`.  The loop returns at whitespace
in `end[1]` (`true`), else it goes on until there is no whitespace (`false`). -/
def skipFront (buf : List UInt8) : ℕ → ℕ → Except Fault (Bool × ℕ)
  | 0, str => do
    let c ← load buf str
    return (isWs c, str)
  | n + 1, str => do
    let c ← load buf str
    if isWs c then skipFront buf n (str + 1) else return (false, str)

/-- `while (is_ws(*end)) end--`, by the index of `end[1]`. -/
def skipBack (buf : List UInt8) : ℕ → Except Fault ℕ
  | 0 => .error .before
  | n + 1 => do
    let c ← load buf n
    if isWs c then skipBack buf n else return n + 1

def strtriml (buf : List UInt8) (str : ℕ) (len : UInt64) : Except Fault (ℕ × List UInt8) := do
  if len = 0 then return (str, buf)
  let end1 := str + len.toNat
  let (ret, str) ← skipFront buf len.toNat str
  if ret then
    let buf ← store buf str 0
    return (str, buf)
  let c ← load buf str
  if c = 0 ∧ str = end1 then return (str, buf)
  let end1 ← skipBack buf end1
  let buf ← store buf end1 0
  return (str, buf)

def strtrim (buf : List UInt8) (str : ℕ) : Except Fault (ℕ × List UInt8) := do
  let len ← strlen buf str
  strtriml buf str len

def strtrimlMove (buf : List UInt8) (str : ℕ) (len : UInt64) :
    Except Fault (ℕ × List UInt8) := do
  let orig := str
  if len = 0 then return (orig, buf)
  let end1 := str + len.toNat
  let (ret, str) ← skipFront buf len.toNat str
  if ret then
    let buf ← store buf orig 0
    return (orig, buf)
  let c ← load buf str
  if c = 0 ∧ str = end1 then
    let buf ← store buf orig 0
    return (orig, buf)
  let end1 ← skipBack buf end1
  -- `end - str + 1`, of type `size_t`
  let trimmedLen := UInt64.ofNat end1 - UInt64.ofNat str
  let buf ← if orig ≠ str then memmove buf orig str trimmedLen.toNat else pure buf
  let buf ← store buf (orig + trimmedLen.toNat) 0
  return (orig, buf)

def strtrimMove (buf : List UInt8) (str : ℕ) : Except Fault (ℕ × List UInt8) := do
  let len ← strlen buf str
  strtrimlMove buf str len

end Bluetea.Strtrim
