import Mathlib.Data.List.Find
import Mathlib.Data.List.Nodup
import Mathlib.Data.List.TakeWhile
import Bluetea.Getopt.Equiv.Call
import Bluetea.Getopt.Tables

/-!
# The order of the tables

Both searches stop at the first match, but names are distinct and have no `=` in them, and letters
are distinct and are not colons, so there is at most one match to stop at: `find?` over a table is
the same over any permutation of it (`longKind_perm`, `shortKind_perm`).
-/

namespace Bluetea.Getopt

open CStr

/-! ### The long table -/

section Long

variable {t t' : LongTable} {cur : List UInt8} {e : BtGetoptLong}

theorem LongTable.opt_ne_none (t : LongTable) : ∀ e ∈ t.entries, e.opt ≠ none := by
  intro e he hnone
  obtain ⟨name, hname, -⟩ := t.named e he
  rw [hname] at hnone
  cases hnone

/-- An entry is meant when its name is all there is in front of the first `=`. -/
theorem names_iff_namePart {name : CStr} (hopt : e.opt = some name)
    (hname : eqSign ∉ name.bytes) : e.names cur ↔ name.bytes = namePart cur := by
  simp only [BtGetoptLong.names, hopt, Bool.or_eq_true, decide_eq_true_eq,
    List.isPrefixOf_iff_prefix]
  constructor
  · rintro (h | ⟨v, rfl⟩)
    · rw [← h, namePart_of_not_mem hname]
    · rw [List.append_assoc]
      exact (namePart_append hname v).symm
  · intro h
    -- what is behind the name part is nothing or starts with `=`
    have hsplit : namePart cur ++ cur.dropWhile (fun b => b != eqSign) = cur :=
      List.takeWhile_append_dropWhile
    rw [← h] at hsplit
    cases hrest : cur.dropWhile fun b => b != eqSign with
    | nil =>
      rw [hrest, List.append_nil] at hsplit
      exact Or.inl hsplit
    | cons b v =>
      have hb : b = eqSign := by
        have hhead := List.head?_dropWhile_not (fun b => b != eqSign) cur
        rw [hrest] at hhead
        simpa using hhead
      subst hb
      rw [hrest] at hsplit
      refine Or.inr ⟨v, ?_⟩
      rw [List.append_assoc]
      exact hsplit

/-- At most one entry is meant. -/
theorem LongTable.names_subsingleton (t : LongTable) (cur : List UInt8) :
    {e ∈ t.entries | BtGetoptLong.names cur e}.Subsingleton := by
  rintro e ⟨he, hcur⟩ e' ⟨he', hcur'⟩
  obtain ⟨name, hopt, hname⟩ := t.named e he
  obtain ⟨name', hopt', hname'⟩ := t.named e' he'
  have hbytes : name.bytes = name'.bytes :=
    ((names_iff_namePart hopt hname).mp hcur).trans
      ((names_iff_namePart hopt' hname').mp hcur').symm
  apply List.inj_on_of_nodup_map t.nodup he he'
  rw [hopt, hopt', bytes_injective hbytes]

theorem LongTable.entries_longOpt (t : LongTable) : Getopt.entries t.longOpt = t.entries :=
  entries_append_end t.opt_ne_none

theorem longKind_perm (h : t.entries.Perm t'.entries) :
    longKind (some t.longOpt) cur = longKind (some t'.longOpt) cur := by
  unfold longKind
  simp only [LongTable.entries_longOpt]
  rw [List.find?_eq_find?_of_perm h (t.names_subsingleton cur)]

/-- The entry with the name in front of the `=` decides. -/
theorem longKind_of_mem (he : e ∈ t.entries) (hname : e.opt.map CStr.bytes = some (namePart cur)) :
    longKind (some t.longOpt) cur = e.kind cur := by
  obtain ⟨name, hopt, hno_eq⟩ := t.named e he
  rw [hopt] at hname
  have hcur : e.names cur := (names_iff_namePart hopt hno_eq).mpr (Option.some.inj hname)
  unfold longKind
  simp only [t.entries_longOpt]
  cases hfind : t.entries.find? (BtGetoptLong.names cur) with
  | none => exact absurd hcur (List.find?_eq_none.mp hfind e he)
  | some e' =>
    have hsame := t.names_subsingleton cur
      ⟨List.mem_of_find?_eq_some hfind, List.find?_some hfind⟩ ⟨he, hcur⟩
    rw [hsame]

theorem longKind_of_not_mem
    (h : ∀ e ∈ t.entries, e.opt.map CStr.bytes ≠ some (namePart cur)) :
    longKind (some t.longOpt) cur = .unknown := by
  have hnone : t.entries.find? (BtGetoptLong.names cur) = none := by
    rw [List.find?_eq_none]
    intro e he hcur
    obtain ⟨name, hopt, hno_eq⟩ := t.named e he
    apply h e he
    rw [hopt, ← (names_iff_namePart hopt hno_eq).mp hcur]
    rfl
  unfold longKind
  simp only [t.entries_longOpt, hnone]

end Long

/-! ### The short spec -/

section Short

variable {s s' : ShortSpec} {c : UInt8} {value : List UInt8}

/-- Behind a letter the colons are skipped. -/
theorem scanShortOpt_colons (takes : Takes) (rest : List UInt8) :
    scanShortOpt c true (takes.colons ++ rest) = scanShortOpt c true rest := by
  cases takes <;> simp [Takes.colons, scanShortOpt]

/-- No group begins with a colon. -/
theorem byteAt_groups_ne_colon (gs : List SpecGroup) :
    byteAt (gs.flatMap SpecGroup.bytes) 0 ≠ colon := by
  cases gs with
  | nil => decide
  | cons g gs => exact g.ne_colon

/-- The scan goes from letter to letter, and ends behind the first one that is `c`. -/
theorem scanShortOpt_groups (skip : Bool) (gs : List SpecGroup) :
    (∃ g rest, gs.find? (fun g => g.letter == c) = some g ∧ byteAt rest 0 ≠ colon ∧
      scanShortOpt c skip (gs.flatMap SpecGroup.bytes) = some (g.takes.colons ++ rest)) ∨
    gs.find? (fun g => g.letter == c) = none ∧
      scanShortOpt c skip (gs.flatMap SpecGroup.bytes) = none := by
  induction gs generalizing skip with
  | nil => exact Or.inr ⟨rfl, rfl⟩
  | cons g gs ih =>
    have hscan : scanShortOpt c skip ((g :: gs).flatMap SpecGroup.bytes)
        = if g.letter ≠ c then scanShortOpt c true (gs.flatMap SpecGroup.bytes)
          else some (g.takes.colons ++ gs.flatMap SpecGroup.bytes) := by
      rw [List.flatMap_cons, SpecGroup.bytes, List.cons_append, scanShortOpt,
        if_neg (fun h => g.ne_colon h.2), scanShortOpt_colons]
    rw [hscan]
    by_cases hc : g.letter = c
    · refine Or.inl ⟨g, gs.flatMap SpecGroup.bytes, ?_, byteAt_groups_ne_colon gs, ?_⟩
      · exact List.find?_cons_of_pos (by simpa using hc)
      · -- what stands behind the letter are its colons, since the next group starts with a letter
        rw [if_neg (not_not.mpr hc)]
    · rw [if_pos hc, List.find?_cons_of_neg (by simpa using hc)]
      exact ih true

/-- The group of the letter decides. -/
theorem shortKind_eq (s : ShortSpec) (c : UInt8) (value : List UInt8) :
    shortKind (some s.shortOpt) c value
      = ((s.groups.find? fun g => g.letter == c).map (SpecGroup.kind value)).getD .unknown := by
  have hbytes : s.shortOpt.bytes = s.groups.flatMap SpecGroup.bytes := rfl
  unfold shortKind
  simp only [hbytes]
  rcases scanShortOpt_groups (c := c) false s.groups with ⟨g, rest, hfind, hrest, hscan⟩ |
    ⟨hfind, hscan⟩
  · have hletter : g.letter = c := by simpa using List.find?_some hfind
    rw [hfind, hscan, ← hletter]
    simp only [Option.map_some, Option.getD_some, SpecGroup.kind]
    -- the byte behind the colons is not a colon
    cases htakes : g.takes with
    | nothing => simp [Takes.colons, hrest]
    | optional => simp [Takes.colons]
    | required => simp [Takes.colons, hrest]
  · rw [hfind, hscan]
    rfl

/-- At most one group has the letter. -/
theorem ShortSpec.letter_subsingleton (s : ShortSpec) (c : UInt8) :
    {g ∈ s.groups | (g.letter == c) = true}.Subsingleton := by
  rintro g ⟨hg, hc⟩ g' ⟨hg', hc'⟩
  apply List.inj_on_of_nodup_map s.nodup hg hg'
  exact (eq_of_beq hc).trans (eq_of_beq hc').symm

theorem shortKind_perm (h : s.groups.Perm s'.groups) :
    shortKind (some s.shortOpt) c value = shortKind (some s'.shortOpt) c value := by
  rw [shortKind_eq, shortKind_eq, List.find?_eq_find?_of_perm h (s.letter_subsingleton c)]

theorem shortKind_of_mem {g : SpecGroup} (hg : g ∈ s.groups) (hc : g.letter = c) :
    shortKind (some s.shortOpt) c value = g.kind value := by
  rw [shortKind_eq]
  cases hfind : s.groups.find? fun g => g.letter == c with
  | none => exact absurd (by simpa using hc) (List.find?_eq_none.mp hfind g hg)
  | some g' =>
    have hfound := List.find?_some (p := fun g : SpecGroup => g.letter == c) hfind
    have hsame := s.letter_subsingleton c ⟨List.mem_of_find?_eq_some hfind, hfound⟩
      ⟨hg, beq_iff_eq.mpr hc⟩
    rw [hsame]
    rfl

theorem shortKind_of_not_mem (h : ∀ g ∈ s.groups, g.letter ≠ c) :
    shortKind (some s.shortOpt) c value = .unknown := by
  have hnone : s.groups.find? (fun g => g.letter == c) = none := by
    rw [List.find?_eq_none]
    intro g hg hc
    exact h g hg (eq_of_beq hc)
  rw [shortKind_eq, hnone]
  rfl

end Short

/-! ### The calls -/

section Calls

variable {wr : BtGetoptWr} {t t' : LongTable} {s s' : ShortSpec} {arg : CStr}

theorem kind_perm (ht : t.entries.Perm t'.entries) (hs : s.groups.Perm s'.groups)
    (arg : List UInt8) : (wr.withTables t s).kind arg = (wr.withTables t' s').kind arg := by
  match arg with
  | [] => rfl
  | [_] => rfl
  | d :: c :: rest =>
    have hlong : longKind (some t.longOpt) rest = longKind (some t'.longOpt) rest :=
      longKind_perm ht
    have hshort : shortKind (some s.shortOpt) c rest = shortKind (some s'.shortOpt) c rest :=
      shortKind_perm hs
    simp only [BtGetoptWr.kind, BtGetoptWr.withTables, hlong, hshort]

/-- The answer does not look at the tables again. -/
theorem reports_withTables (wr : BtGetoptWr) (t : LongTable) (s : ShortSpec) (k : Kind) :
    (wr.withTables t s).reports k = wr.reports k := by
  cases k with
  | bare code required =>
    unfold BtGetoptWr.reports answer
    rw [show (wr.withTables t s).arg ((wr.withTables t s).curIdx + 1) = wr.arg (wr.curIdx + 1)
      from rfl]
    cases wr.arg (wr.curIdx + 1) with
    | error f => rfl
    | ok next =>
      simp only [bind, Except.bind]
      by_cases hdash : byteAt next.bytes 0 = dash
      · rw [if_pos hdash, if_pos hdash]
        rfl
      · rw [if_neg hdash, if_neg hdash]
        rfl
  | nonOpt => rfl
  | unknown => rfl
  | invalid => rfl
  | flag code => rfl
  | attached code off => rfl

/-- A call at an argument, with tables that can be read. -/
theorem call_withTables (t : LongTable) (s : ShortSpec) (hlt : wr.curIdx < wr.argc)
    (harg : wr.arg wr.curIdx = .ok arg) :
    (wr.withTables t s).call = wr.reports ((wr.withTables t s).kind arg.bytes) := by
  have hok : ∀ longOpt, (wr.withTables t s).longOpt = some longOpt → LongTableOk longOpt := by
    intro longOpt hlong
    rw [← Option.some.inj hlong]
    exact longTableOk_append_end t.opt_ne_none
  have hcall : btGetopt (wr.withTables t s)
      = (answer wr.curIdx (wr.withTables t s) ((wr.withTables t s).kind arg.bytes)).map bump :=
    btGetopt_eq hok hlt harg
  rw [call_eq_reports hcall, reports_withTables]

theorem call_perm (wr : BtGetoptWr) (ht : t.entries.Perm t'.entries)
    (hs : s.groups.Perm s'.groups) : (wr.withTables t s).call = (wr.withTables t' s').call := by
  by_cases hlt : wr.curIdx < wr.argc
  · cases harg : wr.arg wr.curIdx with
    | error f =>
      have hfault : ∀ t s, btGetopt (wr.withTables t s) = .error f :=
        fun t s => btGetopt_error hlt harg
      unfold BtGetoptWr.call
      rw [hfault, hfault]
      rfl
    | ok arg =>
      rw [call_withTables t s hlt harg, call_withTables t' s' hlt harg, kind_perm ht hs]
  · have hle : wr.argc ≤ wr.curIdx := Int.not_lt.mp hlt
    have hend : ∀ t s, btGetopt (wr.withTables t s)
        = .ok (BT_GETOPT_END, { wr.withTables t s with retval := none }) :=
      fun t s => btGetopt_end hle
    unfold BtGetoptWr.call
    rw [hend, hend]
    rfl

theorem call_selects (t : LongTable) (s : ShortSpec) (hlt : wr.curIdx < wr.argc)
    (harg : wr.arg wr.curIdx = .ok arg) :
    wr.Selects t s arg.bytes (wr.withTables t s).call := by
  rw [call_withTables t s hlt harg]
  have hkind_long : ∀ cur, (wr.withTables t s).kind (dash :: dash :: cur)
      = longKind (some t.longOpt) cur := fun cur => rfl
  have hkind_short : ∀ c value, c ≠ dash → (wr.withTables t s).kind (dash :: c :: value)
      = shortKind (some s.shortOpt) c value := by
    intro c value hc
    simp [BtGetoptWr.kind, BtGetoptWr.withTables, hc]
  constructor
  · intro cur hcur e he hname
    rw [hcur, hkind_long, longKind_of_mem he hname]
  · intro cur hcur hnone
    rw [hcur, hkind_long, longKind_of_not_mem hnone]
  · intro c value hcur hc g hg hletter
    rw [hcur, hkind_short c value hc, shortKind_of_mem hg hletter]
  · intro c value hcur hc hnone
    rw [hcur, hkind_short c value hc, shortKind_of_not_mem hnone]

/-- Tables that list the same options give the same call, and the call goes by the entry or the
group that the argument names. -/
theorem btGetopt_perm (wr : BtGetoptWr) (ht : t.entries.Perm t'.entries)
    (hs : s.groups.Perm s'.groups) :
    (wr.withTables t s).call = (wr.withTables t' s').call ∧
    ∀ arg, wr.curIdx < wr.argc → wr.arg wr.curIdx = .ok arg →
      wr.Selects t s arg.bytes (wr.withTables t s).call :=
  ⟨call_perm wr ht hs, fun _ hlt harg => call_selects t s hlt harg⟩

/-! ### Names that begin alike -/

/-- `out` -/
def out : CStr := ⟨[111, 117, 116], CStr.ne_zero_of_all rfl⟩

/-- `output` -/
def outputName : CStr := ⟨[111, 117, 116, 112, 117, 116], CStr.ne_zero_of_all rfl⟩

/-- `--out` in front of `--output`. -/
def outTable : LongTable where
  entries := [⟨some out, .requiredVal, 49⟩, ⟨some outputName, .noVal, 50⟩]
  named e he := by
    rcases List.mem_pair.mp he with rfl | rfl
    · exact ⟨out, rfl, by decide⟩
    · exact ⟨outputName, rfl, by decide⟩
  nodup := by decide

/-- `--output` in front of `--out`. -/
def outTableSwapped : LongTable where
  entries := [⟨some outputName, .noVal, 50⟩, ⟨some out, .requiredVal, 49⟩]
  named e he := outTable.named e ((List.Perm.swap ..).mem_iff.mp he)
  nodup := by decide

/-- `f` and `g:` -/
def outSpec : ShortSpec :=
  ⟨[⟨102, .nothing, by decide, by decide⟩, ⟨103, .required, by decide, by decide⟩], by decide⟩

/-- `g:` and `f` -/
def outSpecSwapped : ShortSpec :=
  ⟨[⟨103, .required, by decide, by decide⟩, ⟨102, .nothing, by decide, by decide⟩], by decide⟩

/-- `--output` -/
def outWr : BtGetoptWr where
  argc := 1
  argv := [⟨dash :: dash :: outputName.bytes, CStr.ne_zero_of_all rfl⟩]
  shortOpt := none
  longOpt := none
  retval := none
  curIdx := 0

theorem btGetopt_perm_out :
    (outWr.withTables outTable outSpec).call
      = (outWr.withTables outTableSwapped outSpecSwapped).call ∧
    ∀ arg, outWr.curIdx < outWr.argc → outWr.arg outWr.curIdx = .ok arg →
      outWr.Selects outTable outSpec arg.bytes (outWr.withTables outTable outSpec).call :=
  btGetopt_perm outWr (List.Perm.swap ..) (List.Perm.swap ..)

example : (outWr.withTables outTable outSpec).call = .ok ⟨0, 50, none, 1⟩ := by rfl

end Calls

end Bluetea.Getopt
