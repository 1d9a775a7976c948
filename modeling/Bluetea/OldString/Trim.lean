import Bluetea.Strtrim.Basic

/-!
# The trimmers of the old string library

`src/old/src/bluetea/lib/string.c`.  A pointer is an index of the buffer.  The pointer `tail` of the
source can be in front of its beginning, so the model has the index of `tail[1]` instead.
-/

namespace Bluetea.OldString

open Strtrim (Fault load store memmove)

def isTrimmed (c : UInt8) : Bool :=
  c == ' '.toUInt8 || c == '\n'.toUInt8 || c == '\r'.toUInt8 || c == 0x0b

/-- The loop over `head`, with `move_h`. -/
def trimHead (buf : List UInt8) : ℕ → ℕ → Bool → Except Fault (ℕ × ℕ × Bool)
  | head, 0, moveH => .ok (head, 0, moveH)
  | head, len + 1, moveH => do
    let c ← load buf head
    if isTrimmed c then trimHead buf (head + 1) len true else return (head, len + 1, moveH)

/-- The loop over `tail`, by the index of `tail[1]`, with `move_t`. -/
def trimTail (buf : List UInt8) : ℕ → ℕ → Bool → Except Fault (ℕ × ℕ × Bool)
  | tail1, 0, moveT => .ok (tail1, 0, moveT)
  | 0, _ + 1, _ => .error .before
  | tail1 + 1, len + 1, moveT => do
    let c ← load buf tail1
    if isTrimmed c then trimTail buf tail1 len true else return (tail1 + 1, len + 1, moveT)

/-- `trim_len`, with `*res_len`. -/
def trimLen (buf : List UInt8) (head : ℕ) (len : UInt64) :
    Except Fault (ℕ × UInt64 × List UInt8) := do
  let tail1 := head + len.toNat
  let (head, len, _) ← trimHead buf head len.toNat false
  let (tail1, len, moveT) ← trimTail buf tail1 len false
  let buf ← if len > 0 ∧ moveT then store buf tail1 0 else pure buf
  return (head, UInt64.ofNat len, buf)

/-- `trim_len_cpy`, with `*res_len`. -/
def trimLenCpy (buf : List UInt8) (head : ℕ) (len : UInt64) :
    Except Fault (ℕ × UInt64 × List UInt8) := do
  let start := head
  let tail1 := head + len.toNat
  let (head, len, moveH) ← trimHead buf head len.toNat false
  let (_, len, _) ← trimTail buf tail1 len false
  if moveH then
    let buf ← if len > 0 then memmove buf start head len else pure buf
    let buf ← store buf (start + len) 0
    return (start, UInt64.ofNat len, buf)
  else return (start, UInt64.ofNat len, buf)

def trim (buf : List UInt8) (str : ℕ) : Except Fault (ℕ × List UInt8) := do
  let len ← Strtrim.strlen buf str
  let (ret, _, buf) ← trimLen buf str len
  return (ret, buf)

def trimCpy (buf : List UInt8) (str : ℕ) : Except Fault (ℕ × List UInt8) := do
  let len ← Strtrim.strlen buf str
  let (ret, _, buf) ← trimLenCpy buf str len
  return (ret, buf)

end Bluetea.OldString
