import Mathlib.Data.List.TakeWhile
import Bluetea.Getopt.Equiv.Call

/-!
# The end of the argument vector

An option that takes a value and has none of its own looks at the next argument.  The code
dereferences it without a look at `argc`: when the option is the last argument, it dereferences
the null pointer `argv[argc]`.  That is the only way to leave the argument vector.

`TakesNext` says, in terms of the two tables alone, that an argument is such an option.
-/

namespace Bluetea.Getopt

open CStr

/-- The argument is the option `code`, which takes a value and has none of its own. -/
inductive BtGetoptWr.TakesNext (wr : BtGetoptWr) : List UInt8 → UInt8 → Bool → Prop
  /-- `--opt`, where no earlier entry of the table is meant by it. -/
  | long {longOpt pre post : List BtGetoptLong} {e : BtGetoptLong} {opt : CStr} :
      wr.longOpt = some longOpt → longOpt = pre ++ e :: post →
      (∀ x ∈ pre, isEndOfGetoptLong x = false ∧ x.names opt.bytes = false) →
      e.opt = some opt → (e.argReq = .requiredVal ∨ e.argReq = .optionalVal) →
      TakesNext wr (dash :: dash :: opt.bytes) e.val (e.argReq = .requiredVal)
  /-- `-c`, where the first `c` of the short spec is followed by a colon. -/
  | short {shortOpt : CStr} {pre rest : List UInt8} {c : UInt8} :
      wr.shortOpt = some shortOpt → shortOpt.bytes = pre ++ c :: colon :: rest → c ∉ pre →
      (c = colon → pre = []) → c ≠ dash →
      TakesNext wr [dash, c] c (byteAt rest 0 ≠ colon)

/-- The call is made at the last argument, which is an option `code` that takes a value and has
none of its own. -/
def BtGetoptWr.LastTakesNext (wr : BtGetoptWr) (code : UInt8) (required : Bool) : Prop :=
  wr.curIdx + 1 = wr.argc ∧
    ∃ arg, wr.arg wr.curIdx = .ok arg ∧ wr.TakesNext arg.bytes code required

variable {wr : BtGetoptWr}

/-! ### `TakesNext` and `kind` -/

/-- Between two letters colons are skipped, so a colon is found at the very beginning only. -/
theorem scanShortOpt_colon_iff {skip : Bool} {l rest : List UInt8} :
    scanShortOpt colon skip l = some rest ↔ l = colon :: rest ∧ skip = false := by
  induction l generalizing skip with
  | nil => simp [scanShortOpt]
  | cons s l ih =>
    rw [scanShortOpt]
    by_cases hs : s = colon
    · subst hs
      cases skip with
      | false => simp
      | true => simp [ih]
    · simp [hs, ih]

/-- In a list whose first element is another one, the first `c` is in the tail. -/
theorem exists_first_cons {α : Type*} {c s : α} {l rest : List α} (h : s ≠ c) :
    (∃ pre, s :: l = pre ++ c :: rest ∧ c ∉ pre) ↔ ∃ pre, l = pre ++ c :: rest ∧ c ∉ pre := by
  constructor
  · rintro ⟨pre, hl, hpre⟩
    cases pre with
    | nil => exact absurd (List.cons.inj hl).1 h
    | cons x pre =>
      exact ⟨pre, (List.cons.inj hl).2, fun hc => hpre (List.mem_cons_of_mem _ hc)⟩
  · rintro ⟨pre, rfl, hpre⟩
    refine ⟨s :: pre, rfl, ?_⟩
    intro hc
    rcases List.mem_cons.mp hc with rfl | hc
    · exact h rfl
    · exact hpre hc

theorem scanShortOpt_letter_iff {c : UInt8} (hc : c ≠ colon) {skip : Bool} {l rest : List UInt8} :
    scanShortOpt c skip l = some rest ↔ ∃ pre, l = pre ++ c :: rest ∧ c ∉ pre := by
  induction l generalizing skip with
  | nil => simp [scanShortOpt]
  | cons s l ih =>
    rw [scanShortOpt]
    by_cases hsc : s = c
    · subst hsc
      rw [if_neg fun h => hc h.2, if_neg (not_not_intro rfl)]
      constructor
      · intro h
        cases h
        exact ⟨[], rfl, List.not_mem_nil⟩
      · rintro ⟨pre, hl, hpre⟩
        cases pre with
        | nil => rw [(List.cons.inj hl).2]
        | cons x pre =>
          rw [(List.cons.inj hl).1] at hpre
          exact absurd (List.mem_cons_self ..) hpre
    · -- a colon or another letter: the scan goes on
      rw [exists_first_cons hsc]
      by_cases hskip : skip = true ∧ s = colon
      · rw [if_pos hskip, ih]
      · rw [if_neg hskip, if_pos hsc, ih]

/-- The scan finds the first `c`; a colon is only found at the very beginning. -/
theorem scanShortOpt_eq_some_iff {c : UInt8} {skip : Bool} {l rest : List UInt8} :
    scanShortOpt c skip l = some rest ↔
      ∃ pre, l = pre ++ c :: rest ∧ c ∉ pre ∧ (c = colon → pre = [] ∧ skip = false) := by
  -- a colon is found only as the first byte of the spec, since behind a letter it is skipped
  by_cases hc : c = colon
  · subst hc
    rw [scanShortOpt_colon_iff]
    constructor
    · rintro ⟨rfl, hskip⟩
      exact ⟨[], rfl, List.not_mem_nil, fun _ => ⟨rfl, hskip⟩⟩
    · rintro ⟨pre, rfl, -, hcolon⟩
      obtain ⟨rfl, hskip⟩ := hcolon rfl
      exact ⟨rfl, hskip⟩
  · rw [scanShortOpt_letter_iff hc]
    apply exists_congr
    intro pre
    exact ⟨fun h => ⟨h.1, h.2, fun h' => absurd h' hc⟩, fun h => ⟨h.1, h.2.1⟩⟩

/-- The first entry that is meant, as a place in the table. -/
theorem find_entries_iff {longOpt : List BtGetoptLong} {cur : List UInt8} {e : BtGetoptLong} :
    (entries longOpt).find? (BtGetoptLong.names cur) = some e ↔
      isEndOfGetoptLong e = false ∧ e.names cur ∧ ∃ pre post, longOpt = pre ++ e :: post ∧
        ∀ x ∈ pre, isEndOfGetoptLong x = false ∧ x.names cur = false := by
  have hend : ∀ x ∈ entries longOpt, isEndOfGetoptLong x = false := fun x hx => by
    simpa using List.mem_takeWhile_imp hx
  constructor
  · intro h
    obtain ⟨hnames, pre, post, hentries, hpre⟩ := List.find?_eq_some_iff_append.mp h
    refine ⟨hend e (by rw [hentries]; simp), hnames, pre,
      post ++ longOpt.dropWhile fun x => !isEndOfGetoptLong x, ?_, fun x hx => ⟨?_, ?_⟩⟩
    · rw [← List.cons_append, ← List.append_assoc, ← hentries]
      exact (List.takeWhile_append_dropWhile ..).symm
    · apply hend x
      rw [hentries]
      exact List.mem_append_left _ hx
    · simpa using hpre x hx
  · -- what stands in front of `e` ends no table, so `entries` goes on at least to `e`
    rintro ⟨he, hnames, pre, post, rfl, hpre⟩
    have hentries : entries (pre ++ e :: post) = pre ++ e :: entries post := by
      unfold entries
      rw [List.takeWhile_append_of_pos fun x hx => by simp [(hpre x hx).1],
        List.takeWhile_cons_of_pos (by simp [he])]
    rw [hentries]
    exact List.find?_eq_some_iff_append.mpr
      ⟨hnames, pre, entries post, rfl, fun x hx => by simp [(hpre x hx).2]⟩

theorem isEndOfGetoptLong_of_opt {e : BtGetoptLong} {opt : CStr} (h : e.opt = some opt) :
    isEndOfGetoptLong e = false := by
  simp [isEndOfGetoptLong, getoptLongStructEnd, h]

/-- The entry of a bare long option. -/
theorem kind_eq_bare_iff {e : BtGetoptLong} {cur : List UInt8} {code : UInt8} {required : Bool} :
    e.kind cur = .bare code required ↔ ∃ opt, e.opt = some opt ∧ opt.bytes = cur ∧
      (e.argReq = .requiredVal ∨ e.argReq = .optionalVal) ∧ code = e.val ∧
      required = decide (e.argReq = .requiredVal) := by
  unfold BtGetoptLong.kind
  cases hopt : e.opt with
  | none => simp
  | some opt =>
    -- the value of the entry decides, then whether the argument is just the name
    cases hreq : e.argReq with
    | emptyStruct => simp
    | noVal => simp
    | requiredVal =>
      by_cases hcur : opt.bytes = cur
      · simp [hcur, eq_comm]
      · simp [hcur]
    | optionalVal =>
      by_cases hcur : opt.bytes = cur
      · simp [hcur, eq_comm]
      · simp [hcur]

/-- The kind of a short option that its spec has. -/
theorem shortKind_found {shortOpt : CStr} {c : UInt8} {value rest : List UInt8}
    (hscan : scanShortOpt c false shortOpt.bytes = some rest) :
    shortKind (some shortOpt) c value =
      if byteAt rest 0 ≠ colon then .flag c
      else if value = [] then .bare c (byteAt rest 1 ≠ colon) else .attached c 2 := by
  unfold shortKind
  simp only [hscan]

/-- Of the three kinds of a letter that is found, only the one with a colon and no merged value is
bare. -/
theorem shortKind_found_eq_bare_iff {shortOpt : CStr} {c code : UInt8} {value rest : List UInt8}
    {required : Bool} (hscan : scanShortOpt c false shortOpt.bytes = some rest) :
    shortKind (some shortOpt) c value = .bare code required ↔
      value = [] ∧ code = c ∧ ∃ rest', rest = colon :: rest' ∧
        required = decide (byteAt rest' 0 ≠ colon) := by
  rw [shortKind_found hscan]
  cases rest with
  | nil =>
    rw [if_pos (show byteAt [] 0 ≠ colon by decide)]
    simp
  | cons x rest =>
    show (if x ≠ colon then _ else _) = _ ↔ _
    by_cases hx : x = colon
    · rw [if_neg (not_not_intro hx)]
      by_cases hvalue : value = []
      · rw [if_pos hvalue]
        simp [hx, hvalue, byteAt, eq_comm]
      · rw [if_neg hvalue]
        simp [hvalue]
    · rw [if_pos hx]
      simp [hx]

/-- Where the kind of an argument comes from: an entry of the long table, a letter of the short
spec, or neither. -/
theorem kind_cases (wr : BtGetoptWr) (arg : List UInt8) :
    (wr.kind arg = .nonOpt ∨ wr.kind arg = .unknown) ∨
    (∃ cur longOpt e, arg = dash :: dash :: cur ∧ wr.longOpt = some longOpt ∧
      (entries longOpt).find? (BtGetoptLong.names cur) = some e ∧ wr.kind arg = e.kind cur) ∨
    ∃ c value shortOpt rest, arg = dash :: c :: value ∧ c ≠ dash ∧
      wr.shortOpt = some shortOpt ∧ scanShortOpt c false shortOpt.bytes = some rest ∧
      wr.kind arg = shortKind (some shortOpt) c value := by
  match arg with
  | [] => exact Or.inl (Or.inl rfl)
  | [_] => exact Or.inl (Or.inl rfl)
  -- as `btGetopt` reads: a dash first, then `--` for a long option, else the letter of a short one
  | d :: c :: rest =>
    by_cases hd : d = dash
    · subst hd
      by_cases hc : c = dash
      · subst hc
        have hkind : wr.kind (dash :: dash :: rest) = longKind wr.longOpt rest := rfl
        cases hlong : wr.longOpt with
        | none => exact Or.inl (Or.inl (by rw [hkind, hlong]; rfl))
        | some longOpt =>
          rw [hlong, longKind] at hkind
          cases hfind : (entries longOpt).find? (BtGetoptLong.names rest) with
          | none => exact Or.inl (Or.inr (by rw [hkind, hfind]))
          | some e =>
            rw [hfind] at hkind
            exact Or.inr (Or.inl ⟨rest, longOpt, e, rfl, rfl, hfind, hkind⟩)
      · have hkind : wr.kind (dash :: c :: rest) = shortKind wr.shortOpt c rest := by
          simp [BtGetoptWr.kind, hc]
        cases hshort : wr.shortOpt with
        | none => exact Or.inl (Or.inl (by rw [hkind, hshort]; rfl))
        | some shortOpt =>
          rw [hshort] at hkind
          cases hscan : scanShortOpt c false shortOpt.bytes with
          | none => exact Or.inl (Or.inr (by rw [hkind, shortKind, hscan]))
          | some tail =>
            exact Or.inr (Or.inr ⟨c, rest, shortOpt, tail, rfl, hc, rfl, hscan, hkind⟩)
    · exact Or.inl (Or.inl (by simp [BtGetoptWr.kind, hd]))

/-- `TakesNext` is what the tables say about a bare option. -/
theorem takesNext_iff {arg : List UInt8} {code : UInt8} {required : Bool} :
    wr.TakesNext arg code required ↔ wr.kind arg = .bare code required := by
  constructor
  · intro h
    cases h with
    | @long longOpt pre post e opt hlong htable hpre hopt hreq =>
      have hnames : e.names opt.bytes := by simp [BtGetoptLong.names, hopt]
      have hfind : (entries longOpt).find? (BtGetoptLong.names opt.bytes) = some e :=
        find_entries_iff.mpr ⟨isEndOfGetoptLong_of_opt hopt, hnames, pre, post, htable, hpre⟩
      simp only [BtGetoptWr.kind, ne_eq, not_true_eq_false, ↓reduceIte, longKind, hlong, hfind]
      exact kind_eq_bare_iff.mpr ⟨opt, hopt, rfl, hreq, rfl, rfl⟩
    | @short shortOpt pre rest _ hshort hspec hpre hcolon hc =>
      have hscan : scanShortOpt code false shortOpt.bytes = some (colon :: rest) :=
        scanShortOpt_eq_some_iff.mpr ⟨pre, hspec, hpre, fun h => ⟨hcolon h, rfl⟩⟩
      simp only [BtGetoptWr.kind, ne_eq, not_true_eq_false, ↓reduceIte, hc, hshort]
      exact (shortKind_found_eq_bare_iff hscan).mpr ⟨rfl, rfl, rest, rfl, rfl⟩
  · -- the argument tells which kind it is, and the first entry that fits is the one that was found
    intro h
    rcases kind_cases wr arg with (h' | h') | ⟨cur, longOpt, e, rfl, hlong, hfind, h'⟩ |
      ⟨c, value, shortOpt, rest, rfl, hc, hshort, hscan, h'⟩
    · rw [h'] at h
      cases h
    · rw [h'] at h
      cases h
    · rw [h'] at h
      obtain ⟨opt, hopt, rfl, hreq, rfl, rfl⟩ := kind_eq_bare_iff.mp h
      obtain ⟨-, -, pre, post, htable, hpre⟩ := find_entries_iff.mp hfind
      exact .long hlong htable hpre hopt hreq
    · rw [h'] at h
      obtain ⟨rfl, rfl, rest', rfl, rfl⟩ := (shortKind_found_eq_bare_iff hscan).mp h
      obtain ⟨pre, hspec, hpre, hcolon⟩ := scanShortOpt_eq_some_iff.mp hscan
      exact .short hshort hspec hpre (fun hc => (hcolon hc).1) hc

/-! ### The calls that stay inside -/

/-- The string a call in range looks at. -/
theorem exists_arg (hok : wr.Ok) (h0 : 0 ≤ wr.curIdx) (hlt : wr.curIdx < wr.argc) :
    ∃ arg, wr.arg wr.curIdx = .ok arg ∧ arg ∈ wr.argv := by
  obtain ⟨k, hk⟩ := Int.eq_ofNat_of_zero_le h0
  have hlen : k < wr.argv.length := by
    have := hok.argc_eq
    omega
  rw [hk]
  exact ⟨wr.argv[k], arg_of_lt hlen, List.getElem_mem hlen⟩

/-- At the last argument, an option that needs the next one makes the call fault. -/
theorem btGetopt_last (hok : wr.Ok) {code : UInt8} {required : Bool}
    (h : wr.LastTakesNext code required) : btGetopt wr = .error .nullDeref := by
  obtain ⟨hlast, arg, harg, htakes⟩ := h
  have hnext : wr.arg (wr.curIdx + 1) = .error .nullDeref := by
    rw [hlast, hok.argc_eq]
    exact arg_length
  rw [btGetopt_eq hok.longOpt (by omega) harg, takesNext_iff.mp htakes, answer, hnext]
  rfl

/-- Any other call in range returns, and stays in range. -/
theorem btGetopt_inside (hok : wr.Ok) (h0 : 0 ≤ wr.curIdx) (hle : wr.curIdx ≤ wr.argc)
    (h : ∀ code required, ¬wr.LastTakesNext code required) :
    ∃ ret wr', btGetopt wr = .ok (ret, wr') ∧ wr'.curIdx ≤ wr.argc := by
  by_cases hlt : wr.curIdx < wr.argc
  · obtain ⟨arg, harg, -⟩ := exists_arg hok h0 hlt
    rw [btGetopt_eq hok.longOpt hlt harg]
    cases hkind : wr.kind arg.bytes with
    | bare code required =>
      -- the option is not the last argument, so there is a next one
      have hnext : wr.curIdx + 1 < wr.argc := by
        have hne := mt (fun hlast => ⟨hlast, arg, harg, takesNext_iff.mpr hkind⟩)
          (h code required)
        omega
      obtain ⟨k, hk⟩ := Int.eq_ofNat_of_zero_le (show 0 ≤ wr.curIdx + 1 by omega)
      have hlen : k < wr.argv.length := by
        have := hok.argc_eq
        omega
      rw [answer, hk, arg_of_lt hlen]
      simp only [bind, Except.bind]
      split
      · exact ⟨_, _, rfl, hlt⟩
      · exact ⟨_, _, rfl, by dsimp only [bump]; omega⟩
    | nonOpt => exact ⟨_, _, rfl, hlt⟩
    | unknown => exact ⟨_, _, rfl, hlt⟩
    | invalid => exact ⟨_, _, rfl, hlt⟩
    | flag code => exact ⟨_, _, rfl, hlt⟩
    | attached code off => exact ⟨_, _, rfl, hlt⟩
  · exact ⟨_, _, btGetopt_end (by omega), hle⟩

/-- A call of `bt_getopt` stays inside the argument vector, with `cur_idx <= argc` after it and
with the result that an option without its value should have, exactly when it is not made at a
last argument that takes a value and has none of its own. -/
theorem btGetopt_inside_iff (hok : wr.Ok) (h0 : 0 ≤ wr.curIdx) (hle : wr.curIdx ≤ wr.argc) :
    (∃ ret wr', btGetopt wr = .ok (ret, wr') ∧ wr'.curIdx ≤ wr.argc ∧
      ∀ code required, wr.LastTakesNext code required →
        ret = (if required then BT_GETOPT_MISSING_ARG else code.toNat) ∧ wr'.retval = none) ↔
      ¬∃ code required, wr.LastTakesNext code required := by
  constructor
  · -- at such an argument the call faults
    rintro ⟨ret, wr', hrun, -, -⟩ ⟨code, required, hlast⟩
    rw [btGetopt_last hok hlast] at hrun
    cases hrun
  · intro h
    have hno : ∀ code required, ¬wr.LastTakesNext code required :=
      fun code required hlast => h ⟨code, required, hlast⟩
    obtain ⟨ret, wr', hrun, hin⟩ := btGetopt_inside hok h0 hle hno
    exact ⟨ret, wr', hrun, hin, fun code required hlast => absurd hlast (hno code required)⟩

/-! ### A required value that is missing -/

/-- `--o`. -/
def requiredOpt : CStr := ⟨[dash, dash, 111], CStr.ne_zero_of_all rfl⟩

/-- `v`. -/
def optValue : CStr := ⟨[118], CStr.ne_zero_of_all rfl⟩

/-- A table with the one option `--o`, which requires a value. -/
def requiredTable : List BtGetoptLong :=
  [⟨some ⟨[111], CStr.ne_zero_of_all rfl⟩, .requiredVal, 111⟩, getoptLongStructEnd]

/-- A command line with the given arguments. -/
def requiredWr (argv : List CStr) : BtGetoptWr :=
  ⟨argv.length, argv, none, some requiredTable, none, 0⟩

theorem requiredWr_ok (argv : List CStr) : (requiredWr argv).Ok := by
  refine ⟨rfl, ?_⟩
  rintro _ ⟨⟩
  exact ⟨⟨getoptLongStructEnd, by simp [requiredTable], rfl⟩, by decide⟩

theorem requiredWr_takesNext (argv : List CStr) :
    (requiredWr argv).TakesNext requiredOpt.bytes 111 true :=
  takesNext_iff.mpr rfl

theorem btGetopt_inside_iff_required :
    (∃ ret wr', btGetopt (requiredWr [requiredOpt, optValue]) = .ok (ret, wr') ∧
      wr'.curIdx ≤ 2 ∧ ∀ code required,
        (requiredWr [requiredOpt, optValue]).LastTakesNext code required →
        ret = (if required then BT_GETOPT_MISSING_ARG else code.toNat) ∧ wr'.retval = none) ↔
      ¬∃ code required, (requiredWr [requiredOpt, optValue]).LastTakesNext code required :=
  btGetopt_inside_iff (requiredWr_ok _) (by decide) (by decide)

/-- `--o` as the only argument: instead of `BT_GETOPT_MISSING_ARG` there is a null dereference. -/
theorem requiredOpt_faults :
    (requiredWr [requiredOpt]).Ok ∧ (requiredWr [requiredOpt]).LastTakesNext 111 true ∧
      btGetopt (requiredWr [requiredOpt]) = .error .nullDeref ∧
      ¬∃ ret wr', btGetopt (requiredWr [requiredOpt]) = .ok (ret, wr') := by
  have hrun : btGetopt (requiredWr [requiredOpt]) = .error .nullDeref := rfl
  refine ⟨requiredWr_ok _, ⟨rfl, requiredOpt, rfl, requiredWr_takesNext _⟩, hrun, ?_⟩
  rintro ⟨ret, wr', h⟩
  rw [hrun] at h
  cases h

end Bluetea.Getopt
