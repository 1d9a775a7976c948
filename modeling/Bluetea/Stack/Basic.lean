import Bluetea.CString.Buffer

/-!
# The stack of the old library

`old/src/bluetea/include/bluetea/lib/tstack.h`: a stack of 32-bit values in an array, which grows
from the end of the array down.  The stack pointer is the index of the latest value.
-/

namespace Bluetea.Stack

/-- `struct tstack`, with the array that `arr` points to. -/
structure Tstack where
  sp : UInt32
  capacity : UInt32
  arr : List UInt32
  deriving DecidableEq, Repr

/-- What ends a call early. -/
inductive Fault
  | assert
  | index (f : Buffer.Fault)
  deriving DecidableEq, Repr

/-- `TASSERT` -/
def tassert (c : Prop) [Decidable c] : Except Fault Unit :=
  if c then .ok () else .error .assert

def load (arr : List UInt32) (i : UInt32) : Except Fault UInt32 :=
  (Buffer.load arr i.toNat).mapError .index

def store (arr : List UInt32) (i val : UInt32) : Except Fault (List UInt32) :=
  (Buffer.store arr i.toNat val).mapError .index

/-- `calloc(nmemb, sizeof(uint32_t))`; whether there is memory is not up to the code. -/
def calloc (memory : Bool) (nmemb : UInt32) : Option (List UInt32) :=
  if memory then some (List.replicate nmemb.toNat 0) else none

/-- `none` is the null pointer; the error is printed only. -/
def tssInit (memory : Bool) (st : Tstack) (capacity : UInt32) : Option Tstack :=
  match calloc memory capacity with
  | none => none
  -- the stack pointer starts from the high address
  | some arr => some { st with sp := capacity, capacity := capacity, arr := arr }

def tssCount (st : Tstack) : Except Fault UInt32 := do
  let cap := st.capacity
  let sp := st.sp
  tassert (sp ≤ cap)
  return cap - sp

def tssPush (st : Tstack) (val : UInt32) : Except Fault (Int64 × Tstack) := do
  let cap := st.capacity
  let sp := st.sp
  tassert (sp ≤ cap)
  if sp = 0 then return (-1, st)
  let sp := sp - 1
  let arr ← store st.arr sp val
  return (Int64.ofNat val.toNat, { st with sp := sp, arr := arr })

def tssPop (st : Tstack) : Except Fault (Int64 × Tstack) := do
  let cap := st.capacity
  let sp := st.sp
  tassert (sp ≤ cap)
  if sp = cap then return (-1, st)
  let ret ← load st.arr sp
  return (Int64.ofNat ret.toNat, { st with sp := sp + 1 })

end Bluetea.Stack
