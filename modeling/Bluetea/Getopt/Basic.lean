import Bluetea.CString.Basic
import Bluetea.Machine.Run

/-!
# Command line options

`lib/getopt.c`: `bt_getopt` looks at `argv[cur_idx]`, answers with a code, leaves a pointer to the
value in `retval` and advances `cur_idx`.  Long options are looked up in a table that ends with a
sentinel, short ones in a string of letters, each followed by `:` when it takes a value and by
`::` when the value is optional.

`argv` is the list of the argument strings; `argv[argc]` is the null pointer and nothing lies
beyond it.  Pointers into `argv` are kept as the index of the string and an offset.  The indices
are `int`s in the source; they stay between `0` and `argc`.
-/

namespace Bluetea.Getopt

open CStr

/-! ### Data -/

def dash : UInt8 := '-'.toUInt8

def eqSign : UInt8 := '='.toUInt8

def colon : UInt8 := ':'.toUInt8

/-- `bt_getopt_req_arg`.  A `switch` treats values outside the enumeration as `emptyStruct`. -/
inductive BtGetoptReqArg
  | emptyStruct
  | requiredVal
  | optionalVal
  | noVal
  deriving DecidableEq, Repr

/-- `struct bt_getopt_long`. -/
structure BtGetoptLong where
  opt : Option CStr
  argReq : BtGetoptReqArg
  val : UInt8
  deriving DecidableEq

/-- `GETOPT_LONG_STRUCT_END`. -/
def getoptLongStructEnd : BtGetoptLong := ⟨none, .emptyStruct, 0⟩

/-- A pointer to the byte at `off` of `argv[idx]`. -/
structure ArgPtr where
  idx : Int
  off : ℕ
  deriving DecidableEq, Repr

/-- `struct bt_getopt_wr`. -/
structure BtGetoptWr where
  argc : Int
  argv : List CStr
  shortOpt : Option CStr
  longOpt : Option (List BtGetoptLong)
  retval : Option ArgPtr
  curIdx : Int

/-- What ends a call early. -/
inductive Fault
  | nullDeref
  | outOfBounds
  deriving DecidableEq, Repr

def BT_GETOPT_END : Int := -1

def BT_GETOPT_UNKNOWN_OPT : Int := -2

def BT_GETOPT_NON_OPT : Int := -3

def BT_GETOPT_EINVAL : Int := -4

def BT_GETOPT_MISSING_ARG : Int := -5

/-- The string at `argv[i]`, for a caller that dereferences it. -/
def BtGetoptWr.arg (wr : BtGetoptWr) (i : Int) : Except Fault CStr :=
  if i < 0 ∨ (wr.argv.length : Int) < i then throw .outOfBounds
  else
    match wr.argv[i.toNat]? with
    | none => throw .nullDeref
    | some s => return s

/-! ### The functions -/

def isEndOfGetoptLong (e : BtGetoptLong) : Bool :=
  e.opt = getoptLongStructEnd.opt && e.argReq = getoptLongStructEnd.argReq &&
    e.val = getoptLongStructEnd.val

/-- `take_arg = argv[cur_idx + 1]`, unless that looks like an option. -/
def takeNext (curIdx : Int) (wr : BtGetoptWr) : Except Fault (Option ArgPtr × BtGetoptWr) := do
  -- no look at `argc`: at the last argument this is the null pointer, and the next line reads it
  let next ← wr.arg (curIdx + 1)
  if byteAt next.bytes 0 ≠ dash then
    return (some ⟨curIdx + 1, 0⟩, { wr with curIdx := wr.curIdx + 1 })
  return (none, wr)

/-- The loop over the long table; `cur` is `cur_arg + 2`. -/
def trackGetoptLongLoop (cur : List UInt8) (curIdx : Int) (wr : BtGetoptWr) :
    List BtGetoptLong → Except Fault (Int × BtGetoptWr)
  | [] => throw .outOfBounds
  | e :: longOpt =>
    if isEndOfGetoptLong e then
      return (BT_GETOPT_UNKNOWN_OPT, { wr with retval := none })
    else
      match e.opt with
      | none => throw .nullDeref
      | some opt =>
        let optLen := opt.strlen
        if strncmp optLen opt.bytes cur ≠ 0 then trackGetoptLongLoop cur curIdx wr longOpt
        -- longer than the name: only `--an-option=value` is this option
        else if cur.length > optLen ∧ byteAt cur optLen ≠ eqSign then
          trackGetoptLongLoop cur curIdx wr longOpt
        else
          let val : Int := e.val.toNat
          match e.argReq with
          | .noVal => return (val, { wr with retval := none })
          -- `retval` keeps what the call before left in it
          | .emptyStruct => return (BT_GETOPT_EINVAL, wr)
          | argReq => do
            let (takeArg, wr) ←
              if cur.length > optLen then pure (some ⟨curIdx, 2 + optLen + 1⟩, wr)
              else takeNext curIdx wr
            let wr := { wr with retval := takeArg }
            if argReq = .requiredVal ∧ takeArg = none then return (BT_GETOPT_MISSING_ARG, wr)
            return (val, wr)

def trackGetoptLong (curArg : CStr) (curIdx : Int) (wr : BtGetoptWr) :
    Except Fault (Int × BtGetoptWr) :=
  match wr.longOpt with
  | none => return (BT_GETOPT_NON_OPT, { wr with retval := some ⟨curIdx, 0⟩ })
  | some longOpt => trackGetoptLongLoop (curArg.bytes.drop 2) curIdx wr longOpt

/-- The scan of the short spec for `c`: what stands behind the first match.  Behind a letter that
is not `c` the inner loop skips the colons (`skip`). -/
def scanShortOpt (c : UInt8) : Bool → List UInt8 → Option (List UInt8)
  | _, [] => none
  | skip, s :: shortOpt =>
    if skip ∧ s = colon then scanShortOpt c true shortOpt
    else if s ≠ c then scanShortOpt c true shortOpt
    else some shortOpt

def trackGetoptShort (curArg : CStr) (curIdx : Int) (wr : BtGetoptWr) :
    Except Fault (Int × BtGetoptWr) :=
  let c := byteAt curArg.bytes 1
  match wr.shortOpt with
  | none => return (BT_GETOPT_NON_OPT, { wr with retval := some ⟨curIdx, 0⟩ })
  | some shortOpt =>
    match scanShortOpt c false shortOpt.bytes with
    | none => return (BT_GETOPT_UNKNOWN_OPT, { wr with retval := none })
    | some rest =>
      let ret : Int := c.toNat
      -- `short_opt[1]` and, when it is a colon, `short_opt[2]`
      if byteAt rest 0 ≠ colon then return (ret, { wr with retval := none })
      else do
        let (takeArg, wr) ←
          if curArg.strlen > 2 then pure (some ⟨curIdx, 2⟩, wr) else takeNext curIdx wr
        let wr := { wr with retval := takeArg }
        if byteAt rest 1 = colon then return (ret, wr)
        if takeArg = none then return (BT_GETOPT_MISSING_ARG, wr)
        return (ret, wr)

def btGetopt (wr : BtGetoptWr) : Except Fault (Int × BtGetoptWr) := do
  let curIdx := wr.curIdx
  if curIdx ≥ wr.argc then
    return (BT_GETOPT_END, { wr with retval := none })
  let curArg ← wr.arg curIdx
  let (ret, wr) ←
    -- `-` alone is not an option
    if curArg.strlen ≥ 2 ∧ byteAt curArg.bytes 0 = dash then
      if byteAt curArg.bytes 1 = dash then trackGetoptLong curArg curIdx wr
      else trackGetoptShort curArg curIdx wr
    else pure (BT_GETOPT_NON_OPT, { wr with retval := some ⟨curIdx, 0⟩ })
  return (ret, { wr with curIdx := wr.curIdx + 1 })

/-! ### Repeated calls -/

/-- One call: the index it was made at, what it returned and where it left off. -/
structure Call where
  idx : Int
  ret : Int
  retval : Option ArgPtr
  next : Int
  deriving DecidableEq, Repr

/-- A program that calls `bt_getopt` again and again. -/
def getoptMachine : Machine BtGetoptWr Unit Call Fault where
  step wr _ := do
    let (ret, wr') ← btGetopt wr
    return (⟨wr.curIdx, ret, wr'.retval, wr'.curIdx⟩, wr')
  Pre _ _ := True

end Bluetea.Getopt
