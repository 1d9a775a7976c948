import Bluetea.Getopt.Equiv.RoundTrip

/-!
# What is read has been written

The other direction of the round trip: a run of calls that reports no error has read a well-formed
command line, unless an option that takes no value was written with one (`getopt_accepts_iff`).  An
argument by itself is a positional one, unknown, an option as it is written, or an option with a value
behind it (`reading`).  Which item it begins is then said by the argument behind it.
-/

namespace Bluetea.Getopt

open CStr

variable {spec : OptSpec} {argv : List CStr} {arg : CStr}

/-! ### One argument -/

/-- What an argument is to a program with these options. -/
inductive Reading (spec : OptSpec) (arg : CStr) : Prop
  | positional (h : arg.strlen < 2 ∨ byteAt arg.bytes 0 ≠ dash)
  | unknown (h : ∀ wr : BtGetoptWr, wr.longOpt = some spec.longOpt →
      wr.shortOpt = some spec.shortOpt → wr.kind arg.bytes = .unknown)
  | bare (o : Opt) (ho : o.Declared spec) (harg : arg = o.written)
  | attached (o : Opt) (v : CStr) (ho : o.Declared spec) (hv : o.sep.bytes = [] → v.bytes ≠ [])
      (harg : arg = o.written.append (o.sep.append v))

/-- The `=` behind the name, and what is behind that. -/
theorem eq_namePart_append (cur : List UInt8) :
    cur = namePart cur ∨ ∃ v, cur = namePart cur ++ eqSign :: v := by
  have happ := List.takeWhile_append_dropWhile (p := fun b => b != eqSign) (l := cur)
  cases hdrop : cur.dropWhile fun b => b != eqSign with
  | nil =>
    rw [hdrop, List.append_nil] at happ
    exact Or.inl happ.symm
  | cons x v =>
    have hx : (x != eqSign) = false := by
      have hne : (cur.dropWhile fun b => b != eqSign) ≠ [] := by
        rw [hdrop]
        exact List.cons_ne_nil x v
      have hnot := List.head_dropWhile_not (fun b => b != eqSign) hne
      simpa only [hdrop, List.head_cons] using hnot
    rw [bne_eq_false_iff_eq] at hx
    subst hx
    rw [hdrop] at happ
    exact Or.inr ⟨v, happ.symm⟩

theorem reading_long {cur : List UInt8} (hb : arg.bytes = dash :: dash :: cur) :
    Reading spec arg := by
  by_cases hmem : ∃ e ∈ spec.longs, e.name.bytes = namePart cur
  · obtain ⟨e, he, hname⟩ := hmem
    rcases eq_namePart_append cur with hcur | ⟨v, hcur⟩
    · apply Reading.bare (.long e) he
      apply bytes_injective
      rw [hb, hcur, ← hname]
      rfl
    · have hv : ∀ b ∈ v, b ≠ 0 := by
        intro b hbv
        apply arg.ne_zero
        rw [hb, hcur]
        simp [hbv]
      apply Reading.attached (.long e) ⟨v, hv⟩ he
      · intro hsep
        cases hsep
      · apply bytes_injective
        rw [hb, hcur, ← hname]
        rfl
  · -- a name that no entry has is an unknown option, however it goes on
    apply Reading.unknown
    intro wr hlong hshort
    show wr.kind arg.bytes = _
    rw [hb, show wr.kind (dash :: dash :: cur) = longKind wr.longOpt cur from rfl, hlong]
    apply longKind_of_not_mem (t := spec.longTable)
    intro e he hcur
    obtain ⟨x, hx, rfl⟩ := List.mem_map.mp he
    exact hmem ⟨x, hx, Option.some.inj hcur⟩

theorem reading_short {c : UInt8} {value : List UInt8} (hc : c ≠ dash)
    (hb : arg.bytes = dash :: c :: value) : Reading spec arg := by
  by_cases hmem : ∃ g ∈ spec.shorts, g.letter = c
  · obtain ⟨g, hg, rfl⟩ := hmem
    cases value with
    | nil =>
      apply Reading.bare (.short g) hg
      apply bytes_injective
      rw [hb]
      rfl
    | cons x v =>
      have hv : ∀ b ∈ x :: v, b ≠ 0 := by
        intro b hbv
        apply arg.ne_zero
        rw [hb]
        exact List.mem_cons_of_mem _ (List.mem_cons_of_mem _ hbv)
      apply Reading.attached (.short g) ⟨x :: v, hv⟩ hg
      · intro _ hnil
        cases hnil
      · apply bytes_injective
        rw [hb]
        rfl
  · apply Reading.unknown
    intro wr hlong hshort
    have hkind : wr.kind (dash :: c :: value) = shortKind wr.shortOpt c value := by
      simp [BtGetoptWr.kind, hc]
    rw [hb, hkind, hshort, ← spec.shortSpec_shortOpt]
    apply shortKind_of_not_mem
    intro g hg hletter
    obtain ⟨x, hx, rfl⟩ := List.mem_map.mp hg
    exact hmem ⟨x, hx, hletter⟩

/-- Every argument can be read in one of these ways. -/
theorem reading (spec : OptSpec) (arg : CStr) : Reading spec arg := by
  cases hb : arg.bytes with
  | nil => exact .positional (Or.inl (by rw [strlen, hb]; decide))
  | cons d rest =>
    cases rest with
    | nil => exact .positional (Or.inl (by rw [strlen, hb]; exact Nat.lt_succ_self 1))
    | cons c rest =>
      by_cases hd : d = dash
      · subst hd
        by_cases hc : c = dash
        · subst hc
          exact reading_long hb
        · exact reading_short hc hb
      · exact .positional (Or.inr (by rw [hb]; exact hd))

/-- An option that takes no value is written with one. -/
def FlagText (spec : OptSpec) (arg : CStr) : Prop :=
  ∃ (o : Opt) (v : CStr), o.Declared spec ∧ o.takes = .nothing ∧
    (o.sep.bytes = [] → v.bytes ≠ []) ∧ arg = o.written.append (o.sep.append v)

/-! ### One call -/

/-- No error is reported. -/
def Call.Accepts (c : Call) : Prop := 0 ≤ c.ret ∨ c.ret = BT_GETOPT_NON_OPT

theorem not_accepts {c : Call} {ret : Int} (hret : c.ret = ret) (hneg : ret < 0)
    (hne : ret ≠ BT_GETOPT_NON_OPT) : ¬c.Accepts := by
  rintro (h | h)
  · omega
  · exact hne (hret.symm.trans h)

/-- What a call reports. -/
theorem ret_of_answer {retval : Option ArgPtr} {k : ℕ} (hget : argv[k]? = some arg) {c : Call}
    {wr' wr'' : BtGetoptWr} {ret : Int}
    (hstep : getoptMachine.step (spec.wr argv retval k) () = .ok (c, wr'))
    (hanswer : answer k (spec.wr argv retval k) ((spec.wr argv retval k).kind arg.bytes)
      = .ok (ret, wr'')) : c.ret = ret := by
  rw [step_of_answer hget hanswer] at hstep
  cases hstep
  rfl

theorem drop_eq_cons {l : List CStr} {k : ℕ} {a : CStr} (h : l[k]? = some a) :
    l.drop k = a :: l.drop (k + 1) := by
  obtain ⟨hlt, rfl⟩ := List.getElem?_eq_some_iff.mp h
  exact List.drop_eq_getElem_cons hlt

/-- A call at an option as it is written goes by the argument behind it. -/
theorem item_of_bare {retval : Option ArgPtr} {k : ℕ} {o : Opt} (ho : o.Declared spec)
    (hget : argv[k]? = some o.written) {c : Call} {wr' : BtGetoptWr}
    (hstep : getoptMachine.step (spec.wr argv retval k) () = .ok (c, wr')) (hc : c.Accepts) :
    ∃ item : Item, item.Ok spec (argv.drop (k + item.render.length)) ∧
      argv.drop k = item.render ++ argv.drop (k + item.render.length) := by
  by_cases htakes : o.takes = .nothing
  · exact ⟨.flag o, ⟨ho, htakes⟩, drop_eq_cons hget⟩
  · have hkind : (spec.wr argv retval k).kind o.written.bytes = .bare o.code (o.takes = .required) :=
      kind_bare rfl rfl ho htakes
    cases hnext : argv[k + 1]? with
    | none =>
      -- there is no argument behind it, and the call reads the null pointer
      exfalso
      obtain ⟨hlt, -⟩ := List.getElem?_eq_some_iff.mp hget
      have hlast : argv.length = k + 1 := by
        have hle := List.getElem?_eq_none_iff.mp hnext
        omega
      obtain ⟨ret, hrun, -⟩ := getoptMachine_step_inv hstep
      have hlt' : (spec.wr argv retval k).curIdx < (spec.wr argv retval k).argc := by
        show (k : Int) < argv.length
        omega
      have harg : (spec.wr argv retval k).arg (k + 1) = .error .nullDeref := by
        have hnull : (spec.wr argv retval k).arg (argv.length : Int) = .error .nullDeref := arg_length
        rw [hlast] at hnull
        exact hnull
      rw [btGetopt_eq (wr_ok spec argv retval k).longOpt hlt' (arg_of_get hget), hkind, answer,
        show (spec.wr argv retval k).curIdx = k from rfl, harg] at hrun
      cases hrun
    | some next =>
      have hdrop : argv.drop k = o.written :: next :: argv.drop (k + 2) := by
        rw [drop_eq_cons hget, drop_eq_cons hnext]
      by_cases hdash : byteAt next.bytes 0 = dash
      · by_cases hreq : o.takes = .required
        · -- the value is missing
          exfalso
          have hanswer : answer k (spec.wr argv retval k)
              ((spec.wr argv retval k).kind o.written.bytes)
              = .ok (BT_GETOPT_MISSING_ARG, { spec.wr argv retval k with retval := none }) := by
            rw [hkind, answer, arg_of_get_succ hnext]
            simp only [bind, Except.bind]
            rw [if_pos hdash, if_pos (decide_eq_true hreq)]
            rfl
          exact not_accepts (ret_of_answer hget hstep hanswer) (by decide) (by decide) hc
        · have hopt : o.takes = .optional := by
            cases h : o.takes with
            | nothing => exact absurd h htakes
            | optional => rfl
            | required => exact absurd h hreq
          refine ⟨.alone o, ⟨ho, hopt, next, ?_, hdash⟩, drop_eq_cons hget⟩
          show (argv.drop (k + 1)).head? = some next
          rw [drop_eq_cons hnext]
          rfl
      · exact ⟨.separate o next, ⟨ho, htakes, hdash⟩, hdrop⟩

/-- A call that reports no error is at the beginning of an item. -/
theorem item_of_step {retval : Option ArgPtr} {k : ℕ} (hget : argv[k]? = some arg) {c : Call}
    {wr' : BtGetoptWr} (hstep : getoptMachine.step (spec.wr argv retval k) () = .ok (c, wr'))
    (hc : c.Accepts) (hflag : ¬FlagText spec arg) :
    ∃ item : Item, item.Ok spec (argv.drop (k + item.render.length)) ∧
      argv.drop k = item.render ++ argv.drop (k + item.render.length) := by
  cases reading spec arg with
  | positional h => exact ⟨.positional arg, h, drop_eq_cons hget⟩
  | unknown h =>
    exfalso
    have hkind := h (spec.wr argv retval k) rfl rfl
    have hanswer : answer k (spec.wr argv retval k) ((spec.wr argv retval k).kind arg.bytes)
        = .ok (BT_GETOPT_UNKNOWN_OPT, { spec.wr argv retval k with retval := none }) := by
      rw [hkind]
      rfl
    exact not_accepts (ret_of_answer hget hstep hanswer) (by decide) (by decide) hc
  | bare o ho harg =>
    subst harg
    exact item_of_bare ho hget hstep hc
  | attached o v ho hv harg =>
    have htakes : o.takes ≠ .nothing := fun h => hflag ⟨o, v, ho, h, hv, harg⟩
    subst harg
    exact ⟨.attached o v, ⟨ho, htakes, hv⟩, drop_eq_cons hget⟩

/-- The call reports no error at an argument that is not an option with a value it does not take. -/
def Call.Reads (spec : OptSpec) (argv : List CStr) (c : Call) : Prop :=
  c.Accepts ∧ ∀ arg, argv[c.idx.toNat]? = some arg → ¬FlagText spec arg

/-! ### What an item begins with -/

/-- `bt_getopt` does not see the value. -/
theorem kind_flagText (h : FlagText spec arg) {wr : BtGetoptWr}
    (hlong : wr.longOpt = some spec.longOpt) (hshort : wr.shortOpt = some spec.shortOpt) :
    ∃ code, wr.kind arg.bytes = .flag code := by
  obtain ⟨o, v, ho, htakes, -, rfl⟩ := h
  refine ⟨o.code, ?_⟩
  cases o with
  | long e =>
    refine (kind_long hlong ho (Or.inr ⟨v.bytes, rfl⟩)).trans ?_
    simp only [LongEntry.toLong, show e.takes = .nothing from htakes]
    rfl
  | short g =>
    refine (kind_short hshort ho v.bytes).trans ?_
    rw [if_pos (show g.takes = .nothing from htakes)]
    rfl

/-- An option as it is written is not an option with a value. -/
theorem written_ne_attached (o o' : Opt) {v : CStr} (hv : o'.sep.bytes = [] → v.bytes ≠ []) :
    o.written ≠ o'.written.append (o'.sep.append v) := by
  intro heq
  have hbytes := congrArg CStr.bytes heq
  cases o with
  | long e =>
    cases o' with
    | long e' =>
      have hname : e.name.bytes = e'.name.bytes ++ eqSign :: v.bytes := by
        simpa [Opt.written, Opt.sep, append] using hbytes
      apply e.no_eq
      rw [hname]
      exact List.mem_append_right _ (List.mem_cons_self ..)
    | short g' =>
      have hletter : dash :: e.name.bytes = g'.letter :: v.bytes := by
        simpa [Opt.written, Opt.sep, append, CStr.empty] using hbytes
      exact g'.ne_dash (List.cons.inj hletter).1.symm
  | short g =>
    cases o' with
    | long e' =>
      -- one argument has two bytes, the other a name and `=`
      simp [Opt.written, Opt.sep, append] at hbytes
    | short g' =>
      have hletter : g.letter :: [] = g'.letter :: v.bytes := by
        simpa [Opt.written, Opt.sep, append, CStr.empty] using hbytes
      exact hv rfl (List.cons.inj hletter).2.symm

/-- The kind of the argument that an item begins with. -/
def Item.kind : Item → Kind
  | positional _ => .nonOpt
  | flag o => .flag o.code
  | attached o _ => .attached o.code (o.written.strlen + o.sep.strlen)
  | separate o _ => .bare o.code (o.takes = .required)
  | alone o => .bare o.code (o.takes = .required)

theorem kind_head {item : Item} {rest : List CStr} (hok : item.Ok spec rest) {wr : BtGetoptWr}
    (hlong : wr.longOpt = some spec.longOpt) (hshort : wr.shortOpt = some spec.shortOpt) :
    ∃ s, item.render.head? = some s ∧ wr.kind s.bytes = item.kind := by
  cases item with
  | positional s => exact ⟨s, rfl, kind_positional hok⟩
  | flag o => exact ⟨_, rfl, kind_flag hlong hshort hok.1 hok.2⟩
  | attached o v => exact ⟨_, rfl, kind_attached hlong hshort hok.1 hok.2.1 hok.2.2⟩
  | separate o v => exact ⟨_, rfl, kind_bare hlong hshort hok.1 hok.2.1⟩
  | alone o =>
    refine ⟨_, rfl, kind_bare hlong hshort hok.1 ?_⟩
    rw [hok.2.1]
    decide

/-- An item does not begin with an option and a value it does not take. -/
theorem not_flagText_head {item : Item} {rest : List CStr} (hok : item.Ok spec rest) {s : CStr}
    (hs : item.render.head? = some s) : ¬FlagText spec s := by
  intro hflag
  have hlong : (spec.wr [] none 0).longOpt = some spec.longOpt := rfl
  have hshort : (spec.wr [] none 0).shortOpt = some spec.shortOpt := rfl
  obtain ⟨s', hs', hkind⟩ := kind_head hok hlong hshort
  obtain ⟨code, hcode⟩ := kind_flagText hflag hlong hshort
  rw [hs] at hs'
  cases hs'
  rw [hkind] at hcode
  -- only a flag has the kind of a flag with a value, and it has no value
  cases item with
  | flag o =>
    cases hs
    obtain ⟨o', v, -, -, hv, heq⟩ := hflag
    exact written_ne_attached o o' hv heq
  | _ => cases hcode

/-- A call that decodes an item reports no error. -/
theorem Decodes.accepts {item : Item} {c : Call} (h : Decodes argv item c) : c.Accepts := by
  unfold Call.Accepts
  rw [h.1]
  cases item with
  | positional s => exact Or.inr rfl
  | flag o => exact Or.inl (Int.natCast_nonneg _)
  | attached o v => exact Or.inl (Int.natCast_nonneg _)
  | separate o v => exact Or.inl (Int.natCast_nonneg _)
  | alone o => exact Or.inl (Int.natCast_nonneg _)

/-! ### Runs -/

/-- The calls that read a well-formed command line report no error. -/
theorem run_reads {items : List Item} (hok : CommandLineOk spec items) {pre : List CStr}
    (hargv : argv = pre ++ render items) {retval : Option ArgPtr} {calls : List Call}
    {wr' : BtGetoptWr} (hrun : getoptMachine.run (spec.wr argv retval pre.length)
      (List.replicate items.length ()) = .ok (calls, wr')) :
    ∀ c ∈ calls, c.Reads spec argv := by
  induction items generalizing pre retval calls with
  | nil =>
    cases hrun
    intro c hc
    cases hc
  | cons item items ih =>
    obtain ⟨hitem, hitems⟩ := hok
    have hsplit : argv = pre ++ item.render ++ render items := by
      rw [hargv]
      simp [render]
    obtain ⟨c, wr₁, calls, hfirst, hrest, rfl⟩ := Machine.run_cons_inv hrun
    obtain ⟨c', retval₁, hstep, hc⟩ := step_item hitem hsplit retval
    rw [hfirst] at hstep
    cases hstep
    have hnext := ih hitems hsplit (by rw [List.length_append]; exact hrest)
    refine List.forall_mem_cons.mpr ⟨⟨hc.accepts, fun arg hget => ?_⟩, hnext⟩
    -- the call was made at the first argument of the item
    obtain ⟨ret, -, hcall⟩ := getoptMachine_step_inv hfirst
    have hlong : (spec.wr argv retval pre.length).longOpt = some spec.longOpt := rfl
    have hshort : (spec.wr argv retval pre.length).shortOpt = some spec.shortOpt := rfl
    obtain ⟨s, hs, -⟩ := kind_head hitem hlong hshort
    have hidx : c.idx.toNat = pre.length := by
      rw [hcall]
      rfl
    rw [hidx, get_render hsplit hs] at hget
    cases hget
    exact not_flagText_head hitem hs

/-- The arguments that calls without an error have read are a well-formed command line. -/
theorem items_of_run {n k : ℕ} {retval retval' : Option ArgPtr} {calls : List Call}
    (hrun : getoptMachine.run (spec.wr argv retval k) (List.replicate n ())
      = .ok (calls, spec.wr argv retval' argv.length))
    (hreads : ∀ c ∈ calls, c.Reads spec argv) :
    ∃ items, items.length = n ∧ CommandLineOk spec items ∧ render items = argv.drop k := by
  induction n generalizing k retval calls with
  | zero =>
    have hwr : spec.wr argv retval k = spec.wr argv retval' argv.length := by
      cases hrun
      rfl
    have hk : (k : Int) = argv.length := congrArg BtGetoptWr.curIdx hwr
    refine ⟨[], rfl, trivial, ?_⟩
    rw [show k = argv.length by omega, List.drop_length]
    rfl
  | succ n ih =>
    rw [List.replicate_succ] at hrun
    obtain ⟨c, wr₁, calls, hfirst, hrest, rfl⟩ := Machine.run_cons_inv hrun
    obtain ⟨⟨haccepts, hflag⟩, hreads⟩ := List.forall_mem_cons.mp hreads
    obtain ⟨ret, hcall, hc⟩ := getoptMachine_step_inv hfirst
    have hidx : c.idx.toNat = k := by
      rw [hc]
      rfl
    rw [hidx] at hflag
    cases hget : argv[k]? with
    | none =>
      -- past the last argument the call reports the end
      exfalso
      have hle := List.getElem?_eq_none_iff.mp hget
      have hend : (spec.wr argv retval k).argc ≤ (spec.wr argv retval k).curIdx := by
        show (argv.length : Int) ≤ k
        omega
      rw [btGetopt_end hend] at hcall
      have hret : c.ret = BT_GETOPT_END := by
        rw [hc]
        exact (congrArg Prod.fst (Except.ok.inj hcall)).symm
      exact not_accepts hret (by decide) (by decide) haccepts
    | some arg =>
      obtain ⟨item, hitem, hdrop⟩ := item_of_step hget hfirst haccepts (hflag arg hget)
      have hlt := (List.getElem?_eq_some_iff.mp hget).1
      have hlen : (argv.take k).length = k := List.length_take_of_le (Nat.le_of_lt hlt)
      have hargv : argv = argv.take k ++ item.render ++ argv.drop (k + item.render.length) := by
        rw [List.append_assoc, ← hdrop, List.take_append_drop]
      -- the call ends behind the item, and the rest of the calls begin there
      obtain ⟨c', retval₁, hstep, -⟩ := step_item hitem hargv retval
      rw [hlen, hfirst] at hstep
      cases hstep
      obtain ⟨items, hn, hok, hrender⟩ := ih hrest hreads
      refine ⟨item :: items, congrArg Nat.succ hn, ⟨?_, hok⟩, ?_⟩
      · rw [hrender]
        exact hitem
      · rw [hdrop, ← hrender]
        rfl

/-- `n` calls read all arguments without an error, and none of them passes over the value of an
option that takes none, if and only if the arguments are those of a well-formed command line of `n`
items. -/
theorem getopt_accepts_iff (spec : OptSpec) (argv : List CStr) (retval : Option ArgPtr) (n : ℕ) :
    (∃ items, items.length = n ∧ CommandLineOk spec items ∧ render items = argv) ↔
    ∃ calls retval', getoptMachine.run (spec.wr argv retval 0) (List.replicate n ())
        = .ok (calls, spec.wr argv retval' argv.length) ∧
      ∀ c ∈ calls, c.Reads spec argv := by
  constructor
  · rintro ⟨items, rfl, hok, hrender⟩
    have hargv : argv = [] ++ render items := hrender.symm
    obtain ⟨calls, retval', hrun, -⟩ := run_items hok hargv retval
    exact ⟨calls, retval', hrun, run_reads hok hargv hrun⟩
  · rintro ⟨calls, retval', hrun, hreads⟩
    exact items_of_run hrun hreads

end Bluetea.Getopt
