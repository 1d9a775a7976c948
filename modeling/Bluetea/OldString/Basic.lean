import Bluetea.CString.Buffer
import Bluetea.Html.Basic

/-!
# The encoders of the old string library

`src/old/src/bluetea/lib/string.c`: quoting for the shell, URL encoding and HTML escaping, in the
build without `WIN32`.  A pointer is the index into its buffer.  A `const char *` argument is the
memory from there on.
-/

namespace Bluetea.OldString

open Buffer

/-- `malloc` returns a block of the size that it is asked for, with any content, or `NULL`. -/
structure Malloc where
  block : UInt64 → Option (List UInt8)
  length_eq : ∀ size b, block size = some b → b.length = size.toNat

/-- There is always room, and each new block is filled with `c`. -/
def Malloc.filled (c : UInt8) : Malloc where
  block size := some (List.replicate size.toNat c)
  length_eq size b hb := by
    rw [← Option.some.inj hb, List.length_replicate]

/-- The buffer to write to: `alloc`, or a new one of the given size if that is `NULL`.  At `NULL`
there is no byte that can be written. -/
def target (m : Malloc) (alloc : Option (List UInt8)) (size : UInt64) : List UInt8 :=
  match alloc with
  | none => (m.block size).getD []
  | some buf => buf

/-- The bytes up to the first NUL. -/
def strlen (str : List UInt8) : Except Fault UInt64 :=
  match str.findIdx? (· == 0) with
  | some n => .ok (UInt64.ofNat n)
  | none => .error (.read str.length)

/-! ### `escapeshellarg` -/

/-- The loop, with `n` bytes from `x` to `l`. -/
def escapeshellargLoop (str : List UInt8) :
    ℕ → ℕ → ℕ → List UInt8 → Except Fault (ℕ × List UInt8)
  | 0, _, y, cmd => .ok (y, cmd)
  | n + 1, x, y, cmd => do
    let c ← load str x
    if c = '\''.toUInt8 then
      let cmd ← store cmd y '\''.toUInt8
      let cmd ← store cmd (y + 1) '\\'.toUInt8
      let cmd ← store cmd (y + 2) '\''.toUInt8
      -- falls through
      let cmd ← store cmd (y + 3) c
      escapeshellargLoop str n (x + 1) (y + 4) cmd
    else
      let cmd ← store cmd y c
      escapeshellargLoop str n (x + 1) (y + 1) cmd

/-- The initialiser of `l`. -/
def escapeLen (str : List UInt8) (len : UInt64) : Except Fault UInt64 :=
  if len > 0 then .ok len else strlen str

/-- `escapeshellarg`, with `*res_len` and the buffer that is returned. -/
def escapeshellarg (m : Malloc) (alloc : Option (List UInt8)) (str : List UInt8) (len : UInt64) :
    Except Fault (UInt64 × List UInt8) := do
  let l ← escapeLen str len
  let cmd := target m alloc (l * 4 + 1)
  let cmd ← store cmd 0 '\''.toUInt8
  let (y, cmd) ← escapeshellargLoop str l.toNat 0 1 cmd
  let cmd ← store cmd y '\''.toUInt8
  let cmd ← store cmd (y + 1) 0
  return (UInt64.ofNat (y + 1), cmd)

/-! ### `urlencode` -/

/-- The array initialised by a string literal. -/
def hexchars : List UInt8 :=
  ['0', '1', '2', '3', '4', '5', '6', '7', '8', '9', 'A', 'B', 'C', 'D', 'E', 'F', '\x00'].map
    Char.toUInt8

/-- The bytes that are escaped. -/
def isEscaped (raw : Bool) (c : UInt8) : Bool :=
  (c < '0'.toUInt8 && c != '-'.toUInt8 && c != '.'.toUInt8) ||
    (c < 'A'.toUInt8 && c > '9'.toUInt8) ||
    (c > 'Z'.toUInt8 && c < 'a'.toUInt8 && c != '_'.toUInt8) ||
    (c > 'z'.toUInt8 && (!raw || c != '~'.toUInt8))

/-- The loop, with `n` bytes from `«from»` to `end`. -/
def urlencodeLoop (s : List UInt8) (raw : Bool) :
    ℕ → ℕ → ℕ → List UInt8 → Except Fault (ℕ × List UInt8)
  | 0, _, «to», buf => .ok («to», buf)
  | n + 1, «from», «to», buf => do
    let c ← load s «from»
    if !raw && c == ' '.toUInt8 then
      let buf ← store buf «to» '+'.toUInt8
      urlencodeLoop s raw n («from» + 1) («to» + 1) buf
    else if isEscaped raw c then
      let buf ← store buf «to» '%'.toUInt8
      let hi ← load hexchars (c >>> 4).toNat
      let buf ← store buf («to» + 1) hi
      let lo ← load hexchars (c &&& 15).toNat
      let buf ← store buf («to» + 2) lo
      urlencodeLoop s raw n («from» + 1) («to» + 3) buf
    else
      let buf ← store buf «to» c
      urlencodeLoop s raw n («from» + 1) («to» + 1) buf

/-- `urlencode`, with the buffer that is returned. -/
def urlencode (m : Malloc) (alloc : Option (List UInt8)) (s : List UInt8) (len : UInt64)
    (raw : Bool) : Except Fault (List UInt8) := do
  let start := target m alloc (len * 3 + 1)
  let («to», start) ← urlencodeLoop s raw len.toNat 0 0 start
  store start «to» 0

/-! ### `htmlspecialchars` -/

/-- The table; the entries without an initialiser are zero. -/
def htmlMap (c : UInt8) : Html.HtmlCharMap :=
  if c = '<'.toUInt8 then ⟨Html.chars ['&', 'l', 't', ';'], 4⟩
  else if c = '>'.toUInt8 then ⟨Html.chars ['&', 'g', 't', ';'], 4⟩
  else if c = '\"'.toUInt8 then ⟨Html.chars ['&', 'q', 'u', 'o', 't', ';'], 6⟩
  else if c = '&'.toUInt8 then ⟨Html.chars ['&', 'a', 'm', 'p', ';'], 5⟩
  else ⟨Html.chars [], 0⟩

/-- `cp` and `len` for the byte `c`, which `input` points to. -/
def symbol (input : List UInt8) (c : UInt8) : List UInt8 × UInt8 :=
  let mapTo := htmlMap c
  if mapTo.to.toList.getD 0 0 = 0 then (input, 1) else (mapTo.to.toList, mapTo.len)

/-- The loop, with `n` bytes from `i` to `in_end`.  It leaves `len` behind, the length of the last
symbol that it has seen. -/
def htmlspecialcharsLoop (outlen : UInt64) (input : List UInt8) :
    ℕ → ℕ → UInt64 → UInt8 → List UInt8 → Except Fault (UInt64 × UInt8 × List UInt8)
  | 0, _, j, len, output => .ok (j, len, output)
  | n + 1, i, j, _, output => do
    let c ← load input i
    let (cp, len) := symbol (input.drop i) c
    if j + len.toUInt64 - 1 ≥ outlen then return (j, len, output)
    else
      let output ← memcpy output j.toNat cp len.toNat
      htmlspecialcharsLoop outlen input n (i + 1) (j + len.toUInt64) len output

def htmlspecialchars (output : List UInt8) (outlen : UInt64) (input : List UInt8)
    (inlen : UInt64) : Except Fault (UInt64 × List UInt8) := do
  let (j, len, output) ← htmlspecialcharsLoop outlen input inlen.toNat 0 0 0 output
  if outlen > 0 then
    let j := if j + 1 > outlen then j - len.toUInt64 else j
    let j := j + 1
    let output ← store output j.toNat 0
    return (j, output)
  else return (j, output)

end Bluetea.OldString
