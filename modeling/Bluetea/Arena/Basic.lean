import Mathlib.Data.Nat.Notation
import Mathlib.Logic.Function.Basic

/-!
# The arena

`lib/arena.c`: a bump allocator over a buffer of the caller's, with its state in three static
variables.  The target has 64-bit pointers and sizes, which wrap; the null pointer is `0`.

The memory is flat: a byte at every address, and whether the program may read or write it.
Accesses to other addresses are faults.  `memcpy` copies upwards; the library never lets it
overlap, and where a caller does the C standard leaves the result open.
-/

namespace Bluetea.Arena

abbrev Addr := UInt64

/-- What ends a call early. -/
inductive Fault
  | read (a : Addr)
  | write (a : Addr)
  deriving DecidableEq, Repr

structure Mem where
  byte : Addr → UInt8
  readable : Addr → Bool
  writable : Addr → Bool
  errno : Int

def EINVAL : Int := 22

def ENOMEM : Int := 12

/-- The static variables and the memory. -/
structure ArState where
  arBuf : Addr
  arSize : UInt64
  arUsed : UInt64
  mem : Mem

namespace Mem

def setErrno (m : Mem) (e : Int) : Mem := { m with errno := e }

def load (m : Mem) (a : Addr) : Except Fault UInt8 :=
  if m.readable a then .ok (m.byte a) else .error (.read a)

def store (m : Mem) (a : Addr) (b : UInt8) : Except Fault Mem :=
  if m.writable a then .ok { m with byte := Function.update m.byte a b } else .error (.write a)

/-- The scan of `strnlen`: `i` bytes are behind it, `n` are left to look at. -/
def strnlenLoop (m : Mem) (str : Addr) : ℕ → ℕ → Except Fault ℕ
  | 0, i => .ok i
  | n + 1, i => do
    let b ← m.load (str + UInt64.ofNat i)
    if b = 0 then return i
    strnlenLoop m str n (i + 1)

def strnlen (m : Mem) (str : Addr) (maxlen : UInt64) : Except Fault UInt64 := do
  let len ← m.strnlenLoop str maxlen.toNat 0
  return UInt64.ofNat len

/-- `strlen`: a string without terminator runs through the whole address space. -/
def strlen (m : Mem) (str : Addr) : Except Fault UInt64 := do
  let len ← m.strnlenLoop str UInt64.size 0
  if len = UInt64.size then throw (.read str)
  return UInt64.ofNat len

/-- The loop of `memcpy`: `i` bytes are copied, `n` are left. -/
def memcpyLoop (dst src : Addr) : ℕ → ℕ → Mem → Except Fault Mem
  | 0, _, m => .ok m
  | n + 1, i, m => do
    let b ← m.load (src + UInt64.ofNat i)
    let m ← m.store (dst + UInt64.ofNat i) b
    memcpyLoop dst src n (i + 1) m

def memcpy (m : Mem) (dst src : Addr) (len : UInt64) : Except Fault Mem :=
  memcpyLoop dst src len.toNat 0 m

end Mem

/-! ### The functions -/

def arInit (s : ArState) (arBuf : Addr) (size : UInt64) : Int × ArState :=
  let uptr := arBuf
  if size = 0 ∨ size &&& 0xf ≠ 0 then (-EINVAL, s)
  else if uptr &&& 0xf ≠ 0 then (-EINVAL, s)
  else (0, { s with arBuf := arBuf, arSize := size, arUsed := 0 })

def internalArCapacity (s : ArState) : UInt64 := s.arSize - s.arUsed

def arCapacity (s : ArState) : UInt64 := internalArCapacity s

/-- `len` rounded up to a multiple of 16; the sum may wrap. -/
def roundLen (len : UInt64) : UInt64 := (len + 0xf) &&& ~~~0xf

def internalArAlloc (s : ArState) (len : UInt64) : Addr × ArState :=
  let capacity := internalArCapacity s
  let len := roundLen len
  if capacity < len then (0, { s with mem := s.mem.setErrno ENOMEM })
  else (s.arBuf + s.arUsed, { s with arUsed := s.arUsed + len })

def arAlloc (s : ArState) (len : UInt64) : Addr × ArState := internalArAlloc s len

/-- What `ar_strdup` and `ar_strndup` do once the length is known. -/
def arCopy (s : ArState) (str : Addr) (len : UInt64) : Except Fault (Addr × ArState) :=
  let (ret, s) := internalArAlloc s (len + 1)
  if ret = 0 then return (0, s)
  else do
    let mem ← s.mem.store (ret + len) 0
    let mem ← mem.memcpy ret str len
    return (ret, { s with mem := mem })

def arStrdup (s : ArState) (str : Addr) : Except Fault (Addr × ArState) := do
  let len ← s.mem.strlen str
  arCopy s str len

def arStrndup (s : ArState) (str : Addr) (inlen : UInt64) : Except Fault (Addr × ArState) := do
  let len ← s.mem.strnlen str inlen
  arCopy s str len

end Bluetea.Arena
