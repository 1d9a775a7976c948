import Bluetea.Arena.Program

/-!
# Programs that keep copies of strings

The book of a caller that writes to its memory has two parts: the blocks it got from `ar_alloc`,
which are its own to write to, and the copies made by `ar_strdup` and `ar_strndup`.  A block is
booked with its size, that of a copy with the terminator.

`Confined` is what a caller owes that wants its copies to stay as they are: it writes to its own
blocks or outside the arena, and does not call `ar_init`.
-/

namespace Bluetea.Arena

structure CopyWorld where
  st : ArState
  /-- The blocks from `ar_alloc` since the last `ar_init` that succeeded, latest first. -/
  owned : List (Addr × UInt64)
  /-- The copies made since then, latest first. -/
  copies : List (Addr × UInt64)

def CopyWorld.start (m : Mem) : CopyWorld := ⟨⟨0, 0, 0, m⟩, [], []⟩

/-- A call, or a byte that the caller writes. -/
inductive MemOp
  | call (op : ArOp)
  | write (a : Addr) (b : UInt8)

/-- Book what a call returned: `w'` is where it led from an empty book. -/
def CopyWorld.book (w : CopyWorld) (r : ArRes) (w' : ArWorld) : ArOp → CopyWorld
  | .init _ _ => if r = .code 0 then ⟨w'.st, [], []⟩ else ⟨w'.st, w.owned, w.copies⟩
  | .alloc _ => ⟨w'.st, w'.blocks ++ w.owned, w.copies⟩
  | .strdup _ => ⟨w'.st, w.owned, w'.blocks ++ w.copies⟩
  | .strndup _ _ => ⟨w'.st, w.owned, w'.blocks ++ w.copies⟩

def CopyWorld.step (w : CopyWorld) : MemOp → Except Fault (ArRes × CopyWorld)
  | .call op => do
    let (r, w') ← exec ⟨w.st, []⟩ op
    return (r, w.book r w' op)
  | .write a b => do
    let mem ← w.st.mem.store a b
    return (.code 0, { w with st := { w.st with mem := mem } })

/-- The caller's obligations. -/
def CopyWorld.Owed (w : CopyWorld) : MemOp → Prop
  | .call op => Arena.Owed ⟨w.st, []⟩ op
  | .write a _ => w.st.mem.writable a

/-- The arena and the memory as seen by a program. -/
def copyMachine : Machine CopyWorld MemOp ArRes Fault where
  step := CopyWorld.step
  Pre := CopyWorld.Owed

/-- The address lies in the block. -/
def InBlock (a : Addr) (b : Addr × UInt64) : Prop :=
  b.1.toNat ≤ a.toNat ∧ a.toNat < b.1.toNat + b.2.toNat

/-- No new arena, and no write to a part of the arena that is not a block of the caller's own. -/
def CopyWorld.Confined (w : CopyWorld) : MemOp → Prop
  | .call (.init _ _) => False
  | .call _ => True
  | .write a _ => (∃ b ∈ w.owned, InBlock a b) ∨
      ¬(w.st.arBuf.toNat ≤ a.toNat ∧ a.toNat < w.st.arBuf.toNat + w.st.arSize.toNat)

/-- The memory when other bytes are readable. -/
def Mem.withReadable (m : Mem) (rd : Addr → Bool) : Mem := { m with readable := rd }

def ArState.withReadable (s : ArState) (rd : Addr → Bool) : ArState :=
  { s with mem := s.mem.withReadable rd }

/-- A string, or the first `n` bytes of one, of length `k`: its bytes are readable and not in the
free part of the arena. -/
structure ArState.Source (s : ArState) (str : Addr) (n k : ℕ) : Prop where
  scans : s.mem.Scans str n k
  length_le : k + 1 ≤ maxLen
  not_free : ∀ i, i < k → ¬s.Free (str + UInt64.ofNat i)

/-- In `s` a copy of the first `k` bytes at `str` was asked for with `ar_strndup(str, n)`: the
pointer returned is `p`, and `s'` the state after it. -/
structure ArState.Duplicates (s : ArState) (str : Addr) (n : UInt64) (k : ℕ) (p : Addr)
    (s' : ArState) : Prop where
  run : arStrndup s str n = .ok (p, s')
  bytes : p ≠ 0 → ∀ i, i < k →
    s'.mem.byte (p + UInt64.ofNat i) = s.mem.byte (str + UInt64.ofNat i) ∧
      s'.mem.byte (p + UInt64.ofNat i) ≠ 0
  terminator : p ≠ 0 → s'.mem.byte (p + UInt64.ofNat k) = 0
  failed : p = 0 → s'.mem.byte = s.mem.byte
  /-- The call needs the bytes up to the terminator and below `n`, and reads no others. -/
  reads : ∀ rd : Addr → Bool, (∀ i, i ≤ k → i < n.toNat → rd (str + UInt64.ofNat i)) →
    arStrndup (s.withReadable rd) str n = .ok (p, s'.withReadable rd)

end Bluetea.Arena
