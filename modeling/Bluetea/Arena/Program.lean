import Bluetea.Arena.Basic
import Bluetea.Machine.Run
import Mathlib.Algebra.Group.Nat.Defs

/-!
# Programs that use the arena

An `ArWorld` is the state of the library with the caller's book: the blocks handed out since the
last `ar_init` that succeeded, latest first, each with the size that was asked for.  A correct
caller really has the buffer it passes to `ar_init`, duplicates readable strings only, and asks
for at most `SIZE_MAX - 15` bytes.
-/

namespace Bluetea.Arena

structure ArWorld where
  st : ArState
  blocks : List (Addr × UInt64)

/-- The static variables before any call. -/
def ArWorld.start (m : Mem) : ArWorld := ⟨⟨0, 0, 0, m⟩, []⟩

/-- The calls a program makes. -/
inductive ArOp
  | init (arBuf : Addr) (size : UInt64)
  | alloc (len : UInt64)
  | strdup (str : Addr)
  | strndup (str : Addr) (inlen : UInt64)

/-- What a call returns: a code or a pointer. -/
inductive ArRes
  | code (ret : Int)
  | ptr (p : Addr)
  deriving DecidableEq, Repr

/-- The call was rejected or got nothing. -/
def ArRes.Failed : ArRes → Prop
  | code ret => ret ≠ 0
  | ptr p => p = 0

instance : DecidablePred ArRes.Failed
  | .code ret => inferInstanceAs (Decidable (ret ≠ 0))
  | .ptr p => inferInstanceAs (Decidable (p = 0))

/-- Book a block, if there is one. -/
def record (p : Addr) (len : UInt64) (blocks : List (Addr × UInt64)) : List (Addr × UInt64) :=
  if p = 0 then blocks else (p, len) :: blocks

/-- One call. -/
def exec (w : ArWorld) : ArOp → Except Fault (ArRes × ArWorld)
  | .init arBuf size =>
    let (ret, s) := arInit w.st arBuf size
    .ok (.code ret, ⟨s, if ret = 0 then [] else w.blocks⟩)
  | .alloc len =>
    let (p, s) := arAlloc w.st len
    .ok (.ptr p, ⟨s, record p len w.blocks⟩)
  | .strdup str => do
    let len ← w.st.mem.strlen str
    let (p, s) ← arStrdup w.st str
    return (.ptr p, ⟨s, record p (len + 1) w.blocks⟩)
  | .strndup str inlen => do
    let len ← w.st.mem.strnlen str inlen
    let (p, s) ← arStrndup w.st str inlen
    return (.ptr p, ⟨s, record p (len + 1) w.blocks⟩)

/-- The buffer and the size of the last `ar_init` that was accepted, by the calls and what they returned;
`arena` is what there was before. -/
def lastInit (arena : Addr × UInt64) : List ArOp → List ArRes → Addr × UInt64
  | .init arBuf size :: ops, r :: rs =>
    lastInit (if r.Failed then arena else (arBuf, size)) ops rs
  | _ :: ops, _ :: rs => lastInit arena ops rs
  | _, _ => arena

/-- Looking at no more than `n` bytes from `str` on finds the terminator at `k`, or no terminator
and `k = n`; all bytes looked at are readable. -/
structure Mem.Scans (m : Mem) (str : Addr) (n k : ℕ) : Prop where
  le : k ≤ n
  before : ∀ i, i < k →
    m.readable (str + UInt64.ofNat i) ∧ m.byte (str + UInt64.ofNat i) ≠ 0
  stop : k < n → m.readable (str + UInt64.ofNat k) ∧ m.byte (str + UInt64.ofNat k) = 0

/-- A buffer of `size` bytes, none of them at the null pointer or at the end of the addresses. -/
structure Mem.Buffer (m : Mem) (arBuf : Addr) (size : UInt64) : Prop where
  ne_null : arBuf ≠ 0
  no_wrap : arBuf.toNat + size.toNat < 2 ^ 64
  writable : ∀ i, i < size.toNat → m.writable (arBuf + UInt64.ofNat i)

/-- The free part of the arena. -/
def ArState.Free (s : ArState) (a : Addr) : Prop :=
  s.arBuf.toNat + s.arUsed.toNat ≤ a.toNat ∧ a.toNat < s.arBuf.toNat + s.arSize.toNat

/-- The largest size that can be asked for. -/
def maxLen : ℕ := UInt64.size - 1 - 15

/-- The caller's obligations. -/
def Owed (w : ArWorld) : ArOp → Prop
  | .init arBuf size => (arInit w.st arBuf size).1 = 0 → w.st.mem.Buffer arBuf size
  | .alloc len => len.toNat ≤ maxLen
  | .strdup str => ∃ k, w.st.mem.Scans str UInt64.size k ∧ k + 1 ≤ maxLen
  | .strndup str inlen => ∃ k, w.st.mem.Scans str inlen.toNat k ∧ k + 1 ≤ maxLen

/-- The arena as seen by a program. -/
def arMachine : Machine ArWorld ArOp ArRes Fault where
  step := exec
  Pre := Owed

end Bluetea.Arena
