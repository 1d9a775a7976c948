import Bluetea.Getopt.Equiv.Accepts

/-!
# A command line is written in one way

Two well-formed command lines with the same arguments are the same (`render_injective`): the kind of
its first argument says of which form an item is, and what is written says which option it is
(`written_injective`, `attached_injective`).  So what calls without an error have read is determined
(`getopt_reads_unique`).
-/

namespace Bluetea.Getopt

open CStr

variable {spec : OptSpec} {argv : List CStr}

/-! ### Options -/

section

theorem longs_injective {e e' : LongEntry} (he : e ∈ spec.longs) (he' : e' ∈ spec.longs)
    (hname : e.name.bytes = e'.name.bytes) : e = e' :=
  List.inj_on_of_nodup_map spec.names_nodup he he' (bytes_injective hname)

theorem shorts_injective {g g' : ShortGroup} (hg : g ∈ spec.shorts) (hg' : g' ∈ spec.shorts)
    (hletter : g.letter = g'.letter) : g = g' :=
  List.inj_on_of_nodup_map spec.letters_nodup hg hg' hletter

variable {o o' : Opt} (ho : o.Declared spec) (ho' : o'.Declared spec)

include ho ho'

theorem written_injective (heq : o.written = o'.written) : o = o' := by
  have hbytes := congrArg CStr.bytes heq
  cases o with
  | long e =>
    cases o' with
    | long e' =>
      have hname : e.name.bytes = e'.name.bytes := by simpa [Opt.written] using hbytes
      rw [longs_injective ho ho' hname]
    | short g' => simp [Opt.written, g'.ne_dash.symm] at hbytes
  | short g =>
    cases o' with
    | long e' => simp [Opt.written, g.ne_dash] at hbytes
    | short g' =>
      have hletter : g.letter = g'.letter := by simpa [Opt.written] using hbytes
      rw [shorts_injective ho ho' hletter]

/-- The name ends at the first `=`. -/
theorem attached_injective {v v' : CStr}
    (heq : o.written.append (o.sep.append v) = o'.written.append (o'.sep.append v')) :
    o = o' ∧ v = v' := by
  have hbytes := congrArg CStr.bytes heq
  cases o with
  | long e =>
    cases o' with
    | long e' =>
      have hcur : e.name.bytes ++ eqSign :: v.bytes = e'.name.bytes ++ eqSign :: v'.bytes := by
        simpa [Opt.written, Opt.sep, append] using hbytes
      have hname : e.name.bytes = e'.name.bytes := by
        rw [← namePart_append e.no_eq, hcur, namePart_append e'.no_eq]
      have hv : v.bytes = v'.bytes := by
        rw [hname] at hcur
        exact (List.cons.inj (List.append_cancel_left hcur)).2
      exact ⟨congrArg Opt.long (longs_injective ho ho' hname), bytes_injective hv⟩
    | short g' => simp [Opt.written, Opt.sep, append, g'.ne_dash.symm] at hbytes
  | short g =>
    cases o' with
    | long e' => simp [Opt.written, Opt.sep, append, g.ne_dash] at hbytes
    | short g' =>
      have hcur : g.letter = g'.letter ∧ v.bytes = v'.bytes := by
        simpa [Opt.written, Opt.sep, append, CStr.empty] using hbytes
      exact ⟨congrArg Opt.short (shorts_injective ho ho' hcur.1), bytes_injective hcur.2⟩

end

/-! ### Items -/

/-- An item is determined by the arguments it begins. -/
theorem item_unique {item item' : Item} {rest rest' : List CStr} (hok : item.Ok spec rest)
    (hok' : item'.Ok spec rest') (heq : item.render ++ rest = item'.render ++ rest') :
    item = item' ∧ rest = rest' := by
  have hlong : (spec.wr [] none 0).longOpt = some spec.longOpt := rfl
  have hshort : (spec.wr [] none 0).shortOpt = some spec.shortOpt := rfl
  -- the first arguments are equal, and so are their kinds
  have hkind : item.kind = item'.kind := by
    obtain ⟨s, hs, hkind⟩ := kind_head hok hlong hshort
    obtain ⟨s', hs', hkind'⟩ := kind_head hok' hlong hshort
    have hhead : (item.render ++ rest).head? = (item'.render ++ rest').head? := by rw [heq]
    rw [List.head?_append, List.head?_append, hs, hs'] at hhead
    rw [← hkind, ← hkind', Option.some.inj hhead]
  cases item with
  | positional s =>
    cases item' with
    | positional s' =>
      obtain ⟨rfl, hrest⟩ := List.cons.inj heq
      exact ⟨rfl, hrest⟩
    | _ => cases hkind
  | flag o =>
    cases item' with
    | flag o' =>
      obtain ⟨hwritten, hrest⟩ := List.cons.inj heq
      rw [written_injective hok.1 hok'.1 hwritten]
      exact ⟨rfl, hrest⟩
    | _ => cases hkind
  | attached o v =>
    cases item' with
    | attached o' v' =>
      obtain ⟨hwritten, hrest⟩ := List.cons.inj heq
      obtain ⟨rfl, rfl⟩ := attached_injective hok.1 hok'.1 hwritten
      exact ⟨rfl, hrest⟩
    | _ => cases hkind
  | separate o v =>
    cases item' with
    | separate o' v' =>
      have hall : o.written :: v :: rest = o'.written :: v' :: rest' := heq
      obtain ⟨hwritten, htail⟩ := List.cons.inj hall
      obtain ⟨rfl, hrest⟩ := List.cons.inj htail
      rw [written_injective hok.1 hok'.1 hwritten]
      exact ⟨rfl, hrest⟩
    | alone o' =>
      -- the value does not begin with a dash, what is behind `alone` does
      exfalso
      obtain ⟨-, -, next, hnext, hdash⟩ := hok'
      have hbehind : v :: rest = rest' := (List.cons.inj heq).2
      rw [← hbehind] at hnext
      cases hnext
      exact hok.2.2 hdash
    | _ => cases hkind
  | alone o =>
    cases item' with
    | separate o' v' =>
      exfalso
      obtain ⟨-, -, next, hnext, hdash⟩ := hok
      have hbehind : rest = v' :: rest' := (List.cons.inj heq).2
      rw [hbehind] at hnext
      cases hnext
      exact hok'.2.2 hdash
    | alone o' =>
      obtain ⟨hwritten, hrest⟩ := List.cons.inj heq
      rw [written_injective hok.1 hok'.1 hwritten]
      exact ⟨rfl, hrest⟩
    | _ => cases hkind

theorem render_ne_nil (item : Item) (rest : List CStr) : item.render ++ rest ≠ [] := by
  intro hnil
  cases item <;> cases hnil

/-- A command line is determined by its arguments. -/
theorem render_injective {items items' : List Item} (hok : CommandLineOk spec items)
    (hok' : CommandLineOk spec items') (heq : render items = render items') : items = items' := by
  induction items generalizing items' with
  | nil =>
    cases items' with
    | nil => rfl
    | cons item' items' => exact absurd heq.symm (render_ne_nil item' (render items'))
  | cons item items ih =>
    cases items' with
    | nil => exact absurd heq (render_ne_nil item (render items))
    | cons item' items' =>
      obtain ⟨rfl, hrest⟩ := item_unique hok.1 hok'.1 heq
      rw [ih hok.2 hok'.2 hrest]

/-! ### Runs -/

/-- Calls that read all arguments without an error report the items of the one command line that
has these arguments. -/
theorem getopt_reads_unique {n : ℕ} {retval retval' : Option ArgPtr} {calls : List Call}
    (hrun : getoptMachine.run (spec.wr argv retval 0) (List.replicate n ())
      = .ok (calls, spec.wr argv retval' argv.length))
    (hreads : ∀ c ∈ calls, c.Reads spec argv) :
    ∃ items, (CommandLineOk spec items ∧ render items = argv) ∧
      List.Forall₂ (Decodes argv) items calls ∧
      ∀ items', CommandLineOk spec items' → render items' = argv → items' = items := by
  obtain ⟨items, rfl, hok, hrender⟩ := items_of_run hrun hreads
  have hargv : argv = [] ++ render items := hrender.symm
  -- the command line that was read back runs to the same reports
  obtain ⟨calls', retval₁, hrun', hdecodes⟩ := run_items hok hargv retval
  have hcalls : calls' = calls := by
    rw [List.length_nil, hrun] at hrun'
    exact (congrArg Prod.fst (Except.ok.inj hrun')).symm
  rw [hcalls] at hdecodes
  refine ⟨items, ⟨hok, hrender⟩, hdecodes, fun items' hok' hrender' => ?_⟩
  exact render_injective hok' hok (hrender'.trans hrender.symm)

theorem getopt_reads_unique_serverLine : ∃ calls items,
    (CommandLineOk serverSpec items ∧ render items = render serverLine) ∧
      List.Forall₂ (Decodes (render serverLine)) items calls ∧
      ∀ items', CommandLineOk serverSpec items' → render items' = render serverLine →
        items' = items := by
  have hargv : render serverLine = [] ++ render serverLine := rfl
  obtain ⟨calls, retval', hrun, -⟩ := run_items serverLine_ok hargv none
  exact ⟨calls, getopt_reads_unique hrun (run_reads serverLine_ok hargv hrun)⟩

end Bluetea.Getopt
