import Bluetea.CString.Buffer
import Mathlib.Data.List.Basic

/-!
# The HTML escaper

`lib/string/htmlspecialchars.c`: the special characters of HTML are replaced by entities while
the text is copied to a buffer of the caller's.  A pointer is the index into its buffer, and
`outEnd` is the index `outlen` of the first byte that must not be written.
-/

namespace Bluetea.Html

open Buffer

/-- An entry of the table: an array of 8 characters, and how many of them to copy. -/
structure HtmlCharMap where
  «to» : Vector UInt8 8
  len : UInt8

/-- The array initialised by a string literal. -/
def chars (s : List Char) : Vector UInt8 8 :=
  Vector.ofFn fun i => (s.map Char.toUInt8).getD i 0

/-- The table; the entries without an initialiser are zero. -/
def htmlMap (c : UInt8) : HtmlCharMap :=
  if c = '<'.toUInt8 then ⟨chars ['&', 'l', 't', ';'], 4⟩
  else if c = '>'.toUInt8 then ⟨chars ['&', 'g', 't', ';'], 4⟩
  else if c = '\"'.toUInt8 then ⟨chars ['&', 'q', 'u', 'o', 't', ';'], 6⟩
  else if c = '\''.toUInt8 then ⟨chars ['&', '#', '0', '3', '9', ';'], 6⟩
  else if c = '&'.toUInt8 then ⟨chars ['&', 'a', 'm', 'p', ';'], 5⟩
  else ⟨chars [], 0⟩

/-- The loop of `short_memcpy`: `len` bytes are left. -/
def shortMemcpyLoop (src : List UInt8) :
    ℕ → ℕ → ℕ → List UInt8 → Except Fault (List UInt8)
  | 0, _, _, buf => .ok buf
  | len + 1, cdst, csrc, buf => do
    let b ← load src csrc
    let buf ← store buf cdst b
    shortMemcpyLoop src len (cdst + 1) (csrc + 1) buf

def shortMemcpy (buf : List UInt8) (dst : ℕ) (src : List UInt8) (len : UInt8) :
    Except Fault (List UInt8) :=
  shortMemcpyLoop src len.toNat dst 0 buf

/-- The body of the loop of both escapers: emit the symbol for `c` at `out`; `none` is the
`break` for want of room. -/
def emit (buf : List UInt8) (outEnd out : ℕ) (c : UInt8) :
    Except Fault (Option (ℕ × List UInt8)) :=
  let mapTo := htmlMap c
  if mapTo.to.get 0 = 0 then
    -- not on the map: the byte is copied, if the terminator still fits behind it
    if out + 1 ≥ outEnd then return none
    else do
      let buf ← store buf out c
      return some (out + 1, buf)
  else
    let len := mapTo.len.toNat
    -- an entity is copied whole or not at all
    if out + len ≥ outEnd then return none
    else do
      let buf ← shortMemcpy buf out mapTo.to.toList (UInt8.ofNat len)
      return some (out + len, buf)

/-- The loop of `htmlspecialchars`: the input is what `in` points to, `i` its index. -/
def htmlspecialcharsLoop (outEnd : ℕ) :
    List UInt8 → ℕ → ℕ → List UInt8 → Except Fault (ℕ × List UInt8)
  | [], i, _, _ => .error (.read i)
  | c :: inp, i, out, buf =>
    if c = 0 then .ok (out, buf)
    else do
      match ← emit buf outEnd out c with
      | none => return (out, buf)
      | some (out, buf) => htmlspecialcharsLoop outEnd inp (i + 1) out buf

def htmlspecialchars (buf : List UInt8) (outlen : UInt64) (inp : List UInt8) :
    Except Fault (UInt64 × List UInt8) :=
  if outlen = 0 then return (0, buf)
  else do
    let c ← load inp 0
    if c = 0 then return (0, buf)
    let (out, buf) ← htmlspecialcharsLoop outlen.toNat inp 0 0 buf
    let buf ← store buf out 0
    return (UInt64.ofNat out, buf)

/-- The loop of `htmlspecialcharsl`: `n` bytes are left between `i` and the end of the input. -/
def htmlspecialcharslLoop (inp : List UInt8) (outEnd : ℕ) :
    ℕ → ℕ → ℕ → List UInt8 → Except Fault (ℕ × List UInt8)
  | 0, _, out, buf => .ok (out, buf)
  | n + 1, i, out, buf => do
    let c ← load inp i
    match ← emit buf outEnd out c with
    | none => return (out, buf)
    | some (out, buf) => htmlspecialcharslLoop inp outEnd n (i + 1) out buf

def htmlspecialcharsl (buf : List UInt8) (outlen : UInt64) (inp : List UInt8) (inlen : UInt64) :
    Except Fault (UInt64 × List UInt8) :=
  if outlen = 0 ∨ inlen = 0 then return (0, buf)
  else do
    let (out, buf) ← htmlspecialcharslLoop inp outlen.toNat inlen.toNat 0 0 buf
    let buf ← store buf out 0
    return (UInt64.ofNat out, buf)

end Bluetea.Html
