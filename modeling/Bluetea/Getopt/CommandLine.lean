import Bluetea.Getopt.Basic

/-!
# Command lines

What a user writes: a list of items, each a positional argument or an option of the program in one
of the forms that options have.  `OptSpec` is what the program declares; it is well formed by
construction and is rendered to the two tables of `bt_getopt`.
-/

namespace Bluetea.Getopt

open CStr

/-- Whether an option takes a value. -/
inductive Takes
  | nothing
  | optional
  | required
  deriving DecidableEq, Repr

def Takes.toReqArg : Takes → BtGetoptReqArg
  | nothing => .noVal
  | optional => .optionalVal
  | required => .requiredVal

/-- The colons behind the letter of a short option. -/
def Takes.colons : Takes → List UInt8
  | nothing => []
  | optional => [colon, colon]
  | required => [colon]

theorem Takes.colons_ne_zero (t : Takes) : ∀ b ∈ t.colons, b ≠ 0 := by
  intro b hb
  have hcolon : b = colon := by
    cases t <;> simp [colons] at hb <;> exact hb
  rw [hcolon]
  decide

/-- A long option. -/
structure LongEntry where
  name : CStr
  takes : Takes
  val : UInt8
  no_eq : eqSign ∉ name.bytes
  deriving DecidableEq

def LongEntry.toLong (e : LongEntry) : BtGetoptLong := ⟨some e.name, e.takes.toReqArg, e.val⟩

/-- A short option. -/
structure ShortGroup where
  letter : UInt8
  takes : Takes
  ne_zero : letter ≠ 0
  ne_colon : letter ≠ colon
  ne_dash : letter ≠ dash
  deriving DecidableEq

def ShortGroup.bytes (g : ShortGroup) : List UInt8 := g.letter :: g.takes.colons

theorem ShortGroup.bytes_ne_zero (g : ShortGroup) : ∀ b ∈ g.bytes, b ≠ 0 := by
  intro b hb
  rcases List.mem_cons.mp hb with rfl | hb
  · exact g.ne_zero
  · exact g.takes.colons_ne_zero b hb

/-- The options of a program. -/
structure OptSpec where
  longs : List LongEntry
  shorts : List ShortGroup
  names_nodup : (longs.map LongEntry.name).Nodup
  letters_nodup : (shorts.map ShortGroup.letter).Nodup

/-- The long table. -/
def OptSpec.longOpt (spec : OptSpec) : List BtGetoptLong :=
  spec.longs.map LongEntry.toLong ++ [getoptLongStructEnd]

/-- The short spec. -/
def OptSpec.shortOpt (spec : OptSpec) : CStr where
  bytes := spec.shorts.flatMap ShortGroup.bytes
  ne_zero b hb := by
    obtain ⟨g, -, hb⟩ := List.mem_flatMap.mp hb
    exact g.bytes_ne_zero b hb

/-- An option, of one kind or the other. -/
inductive Opt
  | long (e : LongEntry)
  | short (g : ShortGroup)

namespace Opt

def Declared (spec : OptSpec) : Opt → Prop
  | long e => e ∈ spec.longs
  | short g => g ∈ spec.shorts

def code : Opt → UInt8
  | long e => e.val
  | short g => g.letter

def takes : Opt → Takes
  | long e => e.takes
  | short g => g.takes

/-- `--name` or `-c`. -/
def written : Opt → CStr
  | long e => ⟨dash :: dash :: e.name.bytes, by
      simpa using And.intro (show dash ≠ 0 by decide) fun b hb => e.name.ne_zero b hb⟩
  | short g => ⟨[dash, g.letter], by
      simpa using And.intro (show dash ≠ 0 by decide) g.ne_zero⟩

/-- What stands between an option and a value in the same argument. -/
def sep : Opt → CStr
  | long _ => ⟨[eqSign], CStr.ne_zero_of_all rfl⟩
  | short _ => .empty

end Opt

/-- The items of a command line. -/
inductive Item
  | positional (s : CStr)
  /-- An option without a value. -/
  | flag (o : Opt)
  /-- `--name=v` or `-cv`. -/
  | attached (o : Opt) (v : CStr)
  /-- `--name v` or `-c v`. -/
  | separate (o : Opt) (v : CStr)
  /-- An option whose optional value is left out. -/
  | alone (o : Opt)

namespace Item

/-- The arguments of an item. -/
def render : Item → List CStr
  | positional s => [s]
  | flag o => [o.written]
  | attached o v => [o.written.append (o.sep.append v)]
  | separate o v => [o.written, v]
  | alone o => [o.written]

/-- The item is well formed in front of the arguments `rest`. -/
def Ok (spec : OptSpec) (rest : List CStr) : Item → Prop
  | positional s => s.strlen < 2 ∨ byteAt s.bytes 0 ≠ dash
  | flag o => o.Declared spec ∧ o.takes = .nothing
  | attached o v => o.Declared spec ∧ o.takes ≠ .nothing ∧ (o.sep.bytes = [] → v.bytes ≠ [])
  | separate o v => o.Declared spec ∧ o.takes ≠ .nothing ∧ byteAt v.bytes 0 ≠ dash
  | alone o => o.Declared spec ∧ o.takes = .optional ∧
      ∃ next, rest.head? = some next ∧ byteAt next.bytes 0 = dash

/-- The code that `bt_getopt` returns for the item. -/
def ret : Item → Int
  | positional _ => BT_GETOPT_NON_OPT
  | flag o => o.code.toNat
  | attached o _ => o.code.toNat
  | separate o _ => o.code.toNat
  | alone o => o.code.toNat

/-- The value it leaves in `retval`. -/
def value : Item → Option CStr
  | positional s => some s
  | flag _ => none
  | attached _ v => some v
  | separate _ v => some v
  | alone _ => none

end Item

/-- The arguments of a command line. -/
def render (items : List Item) : List CStr := items.flatMap Item.render

/-- Every item is well formed in front of the items behind it. -/
def CommandLineOk (spec : OptSpec) : List Item → Prop
  | [] => True
  | item :: items => item.Ok spec (render items) ∧ CommandLineOk spec items

/-- The wrapper of a program with these options, at index `i` of its arguments. -/
def OptSpec.wr (spec : OptSpec) (argv : List CStr) (retval : Option ArgPtr) (i : ℕ) : BtGetoptWr :=
  ⟨argv.length, argv, some spec.shortOpt, some spec.longOpt, retval, i⟩

/-- The string a pointer into the arguments points to. -/
def deref (argv : List CStr) (p : ArgPtr) : Option (List UInt8) :=
  if p.idx < 0 then none else argv[p.idx.toNat]?.bind fun s => s.from? p.off

/-- The call reports the item: its code and its value. -/
def Decodes (argv : List CStr) (item : Item) (c : Call) : Prop :=
  c.ret = item.ret ∧
    match item.value with
    | none => c.retval = none
    | some v => ∃ p, c.retval = some p ∧ deref argv p = some v.bytes

end Bluetea.Getopt
