import Mathlib.Data.List.Nodup
import Mathlib.Data.List.TakeWhile
import Bluetea.Getopt.CommandLine
import Bluetea.Getopt.Kind

/-!
# Option tables as sets of options

A long table is its entries in some order, with distinct names that have no `=` in them, and then
the sentinel; a short spec is its groups in some order, with distinct letters.  What an argument
selects is said without the order: an entry by its name, a group by its letter.
-/

namespace Bluetea.Getopt

/-- A long table.  Nothing is asked of `arg_req` and `val`. -/
structure LongTable where
  entries : List BtGetoptLong
  named : ∀ e ∈ entries, ∃ name, e.opt = some name ∧ eqSign ∉ name.bytes
  nodup : (entries.map BtGetoptLong.opt).Nodup

/-- The table in memory. -/
def LongTable.longOpt (t : LongTable) : List BtGetoptLong := t.entries ++ [getoptLongStructEnd]

/-- A group `c`, `c:` or `c::`. -/
structure SpecGroup where
  letter : UInt8
  takes : Takes
  ne_zero : letter ≠ 0
  ne_colon : letter ≠ colon

def SpecGroup.bytes (g : SpecGroup) : List UInt8 := g.letter :: g.takes.colons

theorem SpecGroup.bytes_ne_zero (g : SpecGroup) : ∀ b ∈ g.bytes, b ≠ 0 := by
  intro b hb
  rcases List.mem_cons.mp hb with rfl | hb
  · exact g.ne_zero
  · exact g.takes.colons_ne_zero b hb

/-- A short spec. -/
structure ShortSpec where
  groups : List SpecGroup
  nodup : (groups.map SpecGroup.letter).Nodup

/-- The spec as a string. -/
def ShortSpec.shortOpt (s : ShortSpec) : CStr where
  bytes := s.groups.flatMap SpecGroup.bytes
  ne_zero b hb := by
    obtain ⟨g, -, hb⟩ := List.mem_flatMap.mp hb
    exact g.bytes_ne_zero b hb

/-- The part of `cur` in front of its first `=`, or all of it. -/
def namePart (cur : List UInt8) : List UInt8 := cur.takeWhile fun b => b != eqSign

theorem namePart_of_not_mem {name : List UInt8} (h : eqSign ∉ name) : namePart name = name := by
  unfold namePart
  rw [List.takeWhile_eq_self_iff]
  intro b hb
  rw [bne_iff_ne]
  rintro rfl
  exact h hb

/-- A name without `=` ends at the `=` behind it. -/
theorem namePart_append {name : List UInt8} (h : eqSign ∉ name) (v : List UInt8) :
    namePart (name ++ eqSign :: v) = name := by
  have hall : ∀ b ∈ name, (b != eqSign) = true :=
    List.takeWhile_eq_self_iff.mp (namePart_of_not_mem h)
  unfold namePart
  rw [List.takeWhile_append_of_pos hall, List.takeWhile_cons_of_neg (by simp), List.append_nil]

/-! ### The options of a program as tables -/

theorem LongEntry.named (e : LongEntry) :
    ∃ name, e.toLong.opt = some name ∧ eqSign ∉ name.bytes := ⟨e.name, rfl, e.no_eq⟩

def OptSpec.longTable (spec : OptSpec) : LongTable where
  entries := spec.longs.map LongEntry.toLong
  named e he := by
    obtain ⟨x, -, rfl⟩ := List.mem_map.mp he
    exact x.named
  nodup := by
    have hmap : (spec.longs.map LongEntry.toLong).map BtGetoptLong.opt
        = (spec.longs.map LongEntry.name).map some := by
      rw [List.map_map, List.map_map]
      rfl
    rw [hmap]
    exact spec.names_nodup.map fun _ _ h => Option.some.inj h

def ShortGroup.toSpec (g : ShortGroup) : SpecGroup := ⟨g.letter, g.takes, g.ne_zero, g.ne_colon⟩

def OptSpec.shortSpec (spec : OptSpec) : ShortSpec where
  groups := spec.shorts.map ShortGroup.toSpec
  nodup := by
    rw [List.map_map]
    exact spec.letters_nodup

theorem OptSpec.shortSpec_shortOpt (spec : OptSpec) : spec.shortSpec.shortOpt = spec.shortOpt := by
  apply CStr.bytes_injective
  show (spec.shorts.map ShortGroup.toSpec).flatMap SpecGroup.bytes = _
  rw [List.flatMap_map]
  rfl

/-- The kind of `-c` followed by `value`, when `g` is the group of `c`. -/
def SpecGroup.kind (value : List UInt8) (g : SpecGroup) : Kind :=
  if g.takes = .nothing then .flag g.letter
  else if value = [] then .bare g.letter (g.takes = .required)
  else .attached g.letter 2

/-- The wrapper of a program with these tables. -/
def BtGetoptWr.withTables (wr : BtGetoptWr) (t : LongTable) (s : ShortSpec) : BtGetoptWr :=
  { wr with longOpt := some t.longOpt, shortOpt := some s.shortOpt }

/-- A call at `arg` goes by the entry with exactly the name in front of the first `=`, or by the
group of exactly the letter, and by nothing else. -/
structure BtGetoptWr.Selects (wr : BtGetoptWr) (t : LongTable) (s : ShortSpec)
    (arg : List UInt8) (r : Except Fault Call) : Prop where
  long : ∀ cur, arg = dash :: dash :: cur → ∀ e ∈ t.entries,
    e.opt.map CStr.bytes = some (namePart cur) → r = wr.reports (e.kind cur)
  no_long : ∀ cur, arg = dash :: dash :: cur →
    (∀ e ∈ t.entries, e.opt.map CStr.bytes ≠ some (namePart cur)) → r = wr.reports .unknown
  short : ∀ c value, arg = dash :: c :: value → c ≠ dash → ∀ g ∈ s.groups, g.letter = c →
    r = wr.reports (g.kind value)
  no_short : ∀ c value, arg = dash :: c :: value → c ≠ dash →
    (∀ g ∈ s.groups, g.letter ≠ c) → r = wr.reports .unknown

end Bluetea.Getopt
