import Bluetea.Getopt.Basic

/-!
# What an argument is

`Kind` says what one argument of a command line means by itself, before anyone looks at the
argument behind it: `kind` reads it off the two tables with no loop over pointers and no state.
`answer` is what a call then does; only a `bare` option looks ahead.
-/

namespace Bluetea.Getopt

open CStr

/-- The meaning of one argument. -/
inductive Kind
  /-- Not an option, or there is no table for options of this form. -/
  | nonOpt
  /-- An option that its table does not have. -/
  | unknown
  /-- A table entry that does not say whether the option takes a value. -/
  | invalid
  /-- An option that takes no value. -/
  | flag (code : UInt8)
  /-- An option with its value in the same argument, from the offset on. -/
  | attached (code : UInt8) (off : ℕ)
  /-- An option whose value is the next argument. -/
  | bare (code : UInt8) (required : Bool)
  deriving DecidableEq, Repr

/-- The entries in front of the sentinel. -/
def entries (longOpt : List BtGetoptLong) : List BtGetoptLong :=
  longOpt.takeWhile fun e => !isEndOfGetoptLong e

/-- The entry is meant by `--cur`, with or without `=value` in `cur`. -/
def BtGetoptLong.names (cur : List UInt8) (e : BtGetoptLong) : Bool :=
  match e.opt with
  | none => false
  | some opt => opt.bytes = cur || (opt.bytes ++ [eqSign]).isPrefixOf cur

/-- The kind of `--cur` when `e` is its entry. -/
def BtGetoptLong.kind (cur : List UInt8) (e : BtGetoptLong) : Kind :=
  match e.opt, e.argReq with
  | none, _ => .invalid
  | some _, .emptyStruct => .invalid
  | some _, .noVal => .flag e.val
  | some opt, argReq =>
    if opt.bytes = cur then .bare e.val (argReq = .requiredVal)
    else .attached e.val (2 + opt.strlen + 1)

/-- The kind of `--cur`. -/
def longKind (longOpt : Option (List BtGetoptLong)) (cur : List UInt8) : Kind :=
  match longOpt with
  | none => .nonOpt
  | some longOpt =>
    match (entries longOpt).find? (BtGetoptLong.names cur) with
    | none => .unknown
    | some e => e.kind cur

/-- The kind of `-c` followed by `value`. -/
def shortKind (shortOpt : Option CStr) (c : UInt8) (value : List UInt8) : Kind :=
  match shortOpt with
  | none => .nonOpt
  | some shortOpt =>
    match scanShortOpt c false shortOpt.bytes with
    | none => .unknown
    | some rest =>
      if byteAt rest 0 ≠ colon then .flag c
      else if value = [] then .bare c (byteAt rest 1 ≠ colon)
      else .attached c 2

/-- The kind of an argument. -/
def BtGetoptWr.kind (wr : BtGetoptWr) : List UInt8 → Kind
  | d :: c :: rest =>
    if d ≠ dash then .nonOpt
    else if c = dash then longKind wr.longOpt rest
    else shortKind wr.shortOpt c rest
  | _ => .nonOpt

/-- What a call at index `i` does about an argument of the given kind, before it advances. -/
def answer (i : Int) (wr : BtGetoptWr) : Kind → Except Fault (Int × BtGetoptWr)
  | .nonOpt => .ok (BT_GETOPT_NON_OPT, { wr with retval := some ⟨i, 0⟩ })
  | .unknown => .ok (BT_GETOPT_UNKNOWN_OPT, { wr with retval := none })
  | .invalid => .ok (BT_GETOPT_EINVAL, wr)
  | .flag code => .ok (code.toNat, { wr with retval := none })
  | .attached code off => .ok (code.toNat, { wr with retval := some ⟨i, off⟩ })
  | .bare code required => do
    let next ← wr.arg (i + 1)
    if byteAt next.bytes 0 = dash then
      return (if required then BT_GETOPT_MISSING_ARG else code.toNat, { wr with retval := none })
    return (code.toNat, { wr with retval := some ⟨i + 1, 0⟩, curIdx := wr.curIdx + 1 })

/-- What a caller sees of a call. -/
def BtGetoptWr.call (wr : BtGetoptWr) : Except Fault Call :=
  (btGetopt wr).map fun p => ⟨wr.curIdx, p.1, p.2.retval, p.2.curIdx⟩

/-- What a caller sees of a call at an argument of the given kind. -/
def BtGetoptWr.reports (wr : BtGetoptWr) (k : Kind) : Except Fault Call :=
  (answer wr.curIdx wr k).map fun p => ⟨wr.curIdx, p.1, p.2.retval, p.2.curIdx + 1⟩

/-- A table that ends with the sentinel and names all entries in front of it. -/
structure LongTableOk (longOpt : List BtGetoptLong) : Prop where
  ends : ∃ e ∈ longOpt, isEndOfGetoptLong e
  named : ∀ e ∈ entries longOpt, e.opt ≠ none

/-- What the caller of `bt_getopt` provides: `argc` strings and a long table that can be read. -/
structure BtGetoptWr.Ok (wr : BtGetoptWr) : Prop where
  argc_eq : wr.argc = wr.argv.length
  longOpt : ∀ longOpt, wr.longOpt = some longOpt → LongTableOk longOpt

end Bluetea.Getopt
