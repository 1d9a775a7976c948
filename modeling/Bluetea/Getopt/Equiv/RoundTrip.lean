import Bluetea.Getopt.Equiv.Consume
import Bluetea.Getopt.Equiv.Order

/-!
# What was written is what is read

Every item of a well-formed command line is reported by one call, with its code and its value
(`getopt_decodes`).  The options of a program are tables whose order does not matter, so an item is
looked up by the name of its entry (`kind_long`) or by the letter of its group (`kind_short`).
-/

namespace Bluetea.Getopt

open CStr

variable {spec : OptSpec}

/-! ### Looking options up -/

/-- `--name` and `--name=v` mean the entry `name`. -/
theorem LongEntry.named_cur {e : LongEntry} {cur : List UInt8}
    (hcur : cur = e.name.bytes ∨ ∃ v, cur = e.name.bytes ++ eqSign :: v) :
    e.toLong.opt.map bytes = some (namePart cur) := by
  rcases hcur with rfl | ⟨v, rfl⟩
  · rw [namePart_of_not_mem e.no_eq]
    rfl
  · rw [namePart_append e.no_eq]
    rfl

/-! ### The kind of an item's argument -/

section

variable {wr : BtGetoptWr}

theorem kind_long (hlong : wr.longOpt = some spec.longOpt) {e : LongEntry} {cur : List UInt8}
    (he : e ∈ spec.longs) (hcur : cur = e.name.bytes ∨ ∃ v, cur = e.name.bytes ++ eqSign :: v) :
    wr.kind (dash :: dash :: cur) = e.toLong.kind cur := by
  have hkind : wr.kind (dash :: dash :: cur) = longKind wr.longOpt cur := rfl
  have hmem : e.toLong ∈ spec.longTable.entries := List.mem_map_of_mem he
  rw [hkind, hlong]
  exact longKind_of_mem hmem (LongEntry.named_cur hcur)

theorem kind_short (hshort : wr.shortOpt = some spec.shortOpt) {g : ShortGroup}
    (hg : g ∈ spec.shorts) (value : List UInt8) :
    wr.kind (dash :: g.letter :: value) =
      if g.takes = .nothing then .flag g.letter
      else if value = [] then .bare g.letter (g.takes = .required)
      else .attached g.letter 2 := by
  have hkind : wr.kind (dash :: g.letter :: value) = shortKind wr.shortOpt g.letter value := by
    simp [BtGetoptWr.kind, g.ne_dash]
  have hmem : g.toSpec ∈ spec.shortSpec.groups := List.mem_map_of_mem hg
  rw [hkind, hshort, ← spec.shortSpec_shortOpt]
  exact shortKind_of_mem hmem rfl

variable {o : Opt} (hlong : wr.longOpt = some spec.longOpt)
  (hshort : wr.shortOpt = some spec.shortOpt) (ho : o.Declared spec)

include hlong hshort ho

theorem kind_flag (htakes : o.takes = .nothing) : wr.kind o.written.bytes = .flag o.code := by
  cases o with
  | long e =>
    refine (kind_long hlong ho (Or.inl rfl)).trans ?_
    simp only [LongEntry.toLong, show e.takes = .nothing from htakes]
    rfl
  | short g =>
    refine (kind_short hshort ho []).trans ?_
    rw [if_pos (show g.takes = .nothing from htakes)]
    rfl

theorem kind_bare (htakes : o.takes ≠ .nothing) :
    wr.kind o.written.bytes = .bare o.code (o.takes = .required) := by
  cases o with
  | long e =>
    refine (kind_long hlong ho (Or.inl rfl)).trans ?_
    apply kind_eq_bare_iff.mpr
    refine ⟨e.name, rfl, rfl, ?_⟩
    cases h : e.takes with
    | nothing => exact absurd h htakes
    | optional => simp [LongEntry.toLong, Takes.toReqArg, h, Opt.code, Opt.takes]
    | required => simp [LongEntry.toLong, Takes.toReqArg, h, Opt.code, Opt.takes]
  | short g =>
    refine (kind_short hshort ho []).trans ?_
    rw [if_neg (show g.takes ≠ .nothing from htakes), if_pos rfl]
    rfl

theorem kind_attached {v : CStr} (htakes : o.takes ≠ .nothing)
    (hv : o.sep.bytes = [] → v.bytes ≠ []) :
    wr.kind (o.written.append (o.sep.append v)).bytes
      = .attached o.code (o.written.strlen + o.sep.strlen) := by
  cases o with
  | long e =>
    refine (kind_long hlong ho (Or.inr ⟨v.bytes, rfl⟩)).trans ?_
    -- `--name=v` is not `--name`, so the value is the one attached
    have hne : e.name.bytes ≠ e.name.bytes ++ eqSign :: v.bytes := fun h => by simp at h
    have hoff : (Opt.long e).written.strlen + (Opt.long e).sep.strlen = 2 + e.name.strlen + 1 := by
      simp [Opt.written, Opt.sep, strlen]
      omega
    rw [hoff]
    cases h : e.takes with
    | nothing => exact absurd h htakes
    | optional => simp [LongEntry.toLong, Takes.toReqArg, h, BtGetoptLong.kind, Opt.code]
    | required => simp [LongEntry.toLong, Takes.toReqArg, h, BtGetoptLong.kind, Opt.code]
  | short g =>
    refine (kind_short hshort ho v.bytes).trans ?_
    rw [if_neg (show g.takes ≠ .nothing from htakes), if_neg (hv rfl)]
    rfl

end

/-! ### One item -/

/-- A pointer to the `k`-th argument. -/
theorem deref_of_get {argv : List CStr} {k off : ℕ} {s : CStr} (h : argv[k]? = some s)
    (hoff : off ≤ s.strlen) : deref argv ⟨k, off⟩ = some (s.bytes.drop off) := by
  unfold deref
  rw [if_neg (by dsimp only; omega)]
  simp [h, from?, hoff]

theorem arg_of_get {wr : BtGetoptWr} {k : ℕ} {s : CStr} (h : wr.argv[k]? = some s) :
    wr.arg k = .ok s := by
  obtain ⟨hlt, rfl⟩ := List.getElem?_eq_some_iff.mp h
  exact arg_of_lt hlt

theorem wr_ok (spec : OptSpec) (argv : List CStr) (retval : Option ArgPtr) (i : ℕ) :
    (spec.wr argv retval i).Ok := by
  refine ⟨rfl, ?_⟩
  rintro _ ⟨⟩
  exact longTableOk_append_end spec.longTable.opt_ne_none

/-- A call reports what `answer` says about the argument at its index. -/
theorem step_of_answer {argv : List CStr} {retval : Option ArgPtr} {k : ℕ} {arg : CStr} {ret : Int}
    {wr' : BtGetoptWr} (hget : argv[k]? = some arg)
    (hanswer : answer k (spec.wr argv retval k) ((spec.wr argv retval k).kind arg.bytes)
      = .ok (ret, wr')) :
    getoptMachine.step (spec.wr argv retval k) ()
      = .ok (⟨k, ret, wr'.retval, wr'.curIdx + 1⟩, { wr' with curIdx := wr'.curIdx + 1 }) := by
  have hlt : k < argv.length := (List.getElem?_eq_some_iff.mp hget).1
  have hlt' : (spec.wr argv retval k).curIdx < (spec.wr argv retval k).argc := by
    show (k : Int) < argv.length
    omega
  have hcall : btGetopt (spec.wr argv retval k)
      = .ok (ret, { wr' with curIdx := wr'.curIdx + 1 }) := by
    rw [btGetopt_eq (wr_ok spec argv retval k).longOpt hlt' (arg_of_get hget)]
    show (answer k (spec.wr argv retval k) _).map bump = _
    rw [hanswer]
    rfl
  simp only [getoptMachine, hcall, bind, Except.bind]
  rfl

theorem arg_of_get_succ {argv : List CStr} {retval : Option ArgPtr} {k : ℕ} {s : CStr}
    (h : argv[k + 1]? = some s) : (spec.wr argv retval k).arg (k + 1) = .ok s :=
  arg_of_get (k := k + 1) h

theorem kind_positional {wr : BtGetoptWr} {s : CStr}
    (h : s.strlen < 2 ∨ byteAt s.bytes 0 ≠ dash) : wr.kind s.bytes = .nonOpt := by
  unfold strlen at h
  match hs : s.bytes with
  | [] => rfl
  | [_] => rfl
  | d :: c :: rest =>
    rw [hs] at h
    rcases h with h | h
    · simp only [List.length_cons] at h
      omega
    · exact if_pos h

/-- The first argument of an item, where it stands among the others. -/
theorem get_render {argv pre rest : List CStr} {item : Item} {s : CStr}
    (hargv : argv = pre ++ item.render ++ rest) (h : item.render.head? = some s) :
    argv[pre.length]? = some s := by
  obtain ⟨t, ht⟩ := List.head?_eq_some_iff.mp h
  rw [hargv, ht, List.append_assoc, List.getElem?_append_right (Nat.le_refl _), Nat.sub_self]
  rfl

/-- The step lemma: one call reads one item and stops behind it. -/
theorem step_item {pre rest : List CStr} {item : Item} (hok : item.Ok spec rest)
    {argv : List CStr} (hargv : argv = pre ++ item.render ++ rest) (retval : Option ArgPtr) :
    ∃ c retval', getoptMachine.step (spec.wr argv retval pre.length) ()
        = .ok (c, spec.wr argv retval' (pre.length + item.render.length)) ∧
      Decodes argv item c := by
  have hlong : (spec.wr argv retval pre.length).longOpt = some spec.longOpt := rfl
  have hshort : (spec.wr argv retval pre.length).shortOpt = some spec.shortOpt := rfl
  cases item with
  | positional s =>
    have hget : argv[pre.length]? = some s := get_render hargv rfl
    have hkind : (spec.wr argv retval pre.length).kind s.bytes = .nonOpt := kind_positional hok
    refine ⟨_, some ⟨pre.length, 0⟩, step_of_answer hget (by rw [hkind]; rfl), rfl, _, rfl, ?_⟩
    exact deref_of_get hget (Nat.zero_le _)
  | flag o =>
    obtain ⟨ho, htakes⟩ := hok
    have hget : argv[pre.length]? = some o.written := get_render hargv rfl
    have hkind := kind_flag hlong hshort ho htakes
    -- the call does not look at the next argument
    refine ⟨_, none, step_of_answer hget (by rw [hkind]; rfl), rfl, ?_⟩
    rfl
  | attached o v =>
    obtain ⟨ho, htakes, hv⟩ := hok
    have hget : argv[pre.length]? = some (o.written.append (o.sep.append v)) := get_render hargv rfl
    have hkind := kind_attached hlong hshort ho htakes hv
    -- the value begins behind the name and the separator
    refine ⟨_, some ⟨pre.length, o.written.strlen + o.sep.strlen⟩,
      step_of_answer hget (by rw [hkind]; rfl), rfl, _, rfl, ?_⟩
    rw [deref_of_get hget (by simp [append, strlen])]
    simp [append, strlen, List.drop_append]
  | separate o v =>
    obtain ⟨ho, htakes, hv⟩ := hok
    have hget : argv[pre.length]? = some o.written := get_render hargv rfl
    have hnext : argv[pre.length + 1]? = some v := by
      rw [hargv]
      simp [Item.render]
    -- the value does not look like an option, so it is taken
    have hkind := kind_bare hlong hshort ho htakes
    refine ⟨_, some ⟨pre.length + 1, 0⟩, step_of_answer hget (by
      rw [hkind, answer, arg_of_get_succ hnext]
      simp only [bind, Except.bind]
      rw [if_neg hv]
      rfl), rfl, _, rfl, ?_⟩
    exact deref_of_get hnext (Nat.zero_le _)
  | alone o =>
    obtain ⟨ho, htakes, next, hnext, hdash⟩ := hok
    have hget : argv[pre.length]? = some o.written := get_render hargv rfl
    have hnext' : argv[pre.length + 1]? = some next := by
      rw [hargv, List.append_assoc, List.getElem?_append_right (Nat.le_add_right ..)]
      simpa [Item.render, List.head?_eq_getElem?] using hnext
    -- the next argument looks like an option, so it is left alone
    have hkind := kind_bare hlong hshort ho (by rw [htakes]; decide)
    refine ⟨_, none, step_of_answer hget (by
      rw [hkind, htakes, answer, arg_of_get_succ hnext']
      simp only [bind, Except.bind]
      rw [if_pos hdash]
      rfl), rfl, ?_⟩
    rfl

/-! ### Command lines -/

/-- The run lemma, from any item on. -/
theorem run_items {items : List Item} (hok : CommandLineOk spec items) {pre argv : List CStr}
    (hargv : argv = pre ++ render items) (retval : Option ArgPtr) :
    ∃ calls retval', getoptMachine.run (spec.wr argv retval pre.length)
        (List.replicate items.length ()) = .ok (calls, spec.wr argv retval' argv.length) ∧
      List.Forall₂ (Decodes argv) items calls := by
  induction items generalizing pre retval with
  | nil =>
    have hpre : pre.length = argv.length := by rw [hargv]; simp [render]
    exact ⟨[], retval, by rw [hpre]; rfl, .nil⟩
  | cons item items ih =>
    obtain ⟨hitem, hitems⟩ := hok
    have hsplit : argv = pre ++ item.render ++ render items := by
      rw [hargv]
      simp [render]
    -- the first call ends where the next item begins
    obtain ⟨c, retval₁, hstep, hc⟩ := step_item hitem hsplit retval
    obtain ⟨calls, retval', hrun, hcalls⟩ := ih hitems hsplit retval₁
    rw [List.length_append] at hrun
    exact ⟨c :: calls, retval', Machine.run_cons hstep hrun, .cons hc hcalls⟩

/-- Calling `bt_getopt` once for each item of a well-formed command line reports the items in
order, and the next call returns `BT_GETOPT_END`. -/
theorem getopt_decodes {items : List Item} (hok : CommandLineOk spec items)
    (retval : Option ArgPtr) :
    ∃ calls wr', getoptMachine.run (spec.wr (render items) retval 0)
        (List.replicate items.length ()) = .ok (calls, wr') ∧
      List.Forall₂ (Decodes (render items)) items calls ∧
      btGetopt wr' = .ok (BT_GETOPT_END, { wr' with retval := none }) := by
  have hargv : render items = [] ++ render items := rfl
  obtain ⟨calls, retval', hrun, hcalls⟩ := run_items hok hargv retval
  exact ⟨calls, _, hrun, hcalls, btGetopt_end (Int.le_refl _)⟩

/-! ### A command line with every form of item -/

/-- `--host` requires a value, `--color` may have one, `--quiet` has none. -/
def host : LongEntry :=
  ⟨⟨[104, 111, 115, 116], CStr.ne_zero_of_all rfl⟩, .required, 72, by decide⟩

def color : LongEntry :=
  ⟨⟨[99, 111, 108, 111, 114], CStr.ne_zero_of_all rfl⟩, .optional, 67, by decide⟩

def quiet : LongEntry :=
  ⟨⟨[113, 117, 105, 101, 116], CStr.ne_zero_of_all rfl⟩, .nothing, 81, by decide⟩

/-- `-p` requires a value, `-o` may have one, `-d` has none. -/
def port : ShortGroup := ⟨112, .required, by decide, by decide, by decide⟩

def output : ShortGroup := ⟨111, .optional, by decide, by decide, by decide⟩

def daemon : ShortGroup := ⟨100, .nothing, by decide, by decide, by decide⟩

def serverSpec : OptSpec :=
  ⟨[host, color, quiet], [port, output, daemon], by decide, by decide⟩

def word : CStr := ⟨[120], CStr.ne_zero_of_all rfl⟩

/-- `x --quiet -d --host=x --color= -px --host x -p x --color -o -`. -/
def serverLine : List Item :=
  [.positional word, .flag (.long quiet), .flag (.short daemon), .attached (.long host) word,
    .attached (.long color) .empty, .attached (.short port) word,
    .separate (.long host) word, .separate (.short port) word, .alone (.long color),
    .alone (.short output), .positional ⟨[dash], CStr.ne_zero_of_all rfl⟩]

theorem serverLine_ok : CommandLineOk serverSpec serverLine := by
  have hhost : (Opt.long host).Declared serverSpec := List.mem_cons_self ..
  have hcolor : (Opt.long color).Declared serverSpec :=
    List.mem_cons_of_mem _ (List.mem_cons_self ..)
  have hport : (Opt.short port).Declared serverSpec := List.mem_cons_self ..
  refine ⟨Or.inl (by decide), ⟨?_, rfl⟩, ⟨?_, rfl⟩, ⟨hhost, by decide, by decide⟩,
    ⟨hcolor, by decide, by decide⟩, ⟨hport, by decide, by decide⟩, ⟨hhost, by decide, by decide⟩,
    ⟨hport, by decide, by decide⟩, ⟨hcolor, rfl, _, rfl, rfl⟩, ⟨?_, rfl, _, rfl, rfl⟩,
    Or.inl (by decide), trivial⟩
  · exact List.mem_cons_of_mem _ (List.mem_cons_of_mem _ (List.mem_cons_self ..))
  · exact List.mem_cons_of_mem _ (List.mem_cons_of_mem _ (List.mem_cons_self ..))
  · exact List.mem_cons_of_mem _ (List.mem_cons_self ..)

theorem getopt_decodes_serverLine : ∃ calls wr',
    getoptMachine.run (serverSpec.wr (render serverLine) none 0)
      (List.replicate serverLine.length ()) = .ok (calls, wr') ∧
    List.Forall₂ (Decodes (render serverLine)) serverLine calls ∧
    btGetopt wr' = .ok (BT_GETOPT_END, { wr' with retval := none }) :=
  getopt_decodes serverLine_ok none

end Bluetea.Getopt
