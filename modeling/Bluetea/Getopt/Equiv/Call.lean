import Bluetea.Getopt.Kind

/-!
# One call of `bt_getopt`

The two loops find what `kind` says (`trackGetoptLongLoop_cases`, `trackGetoptShort_eq`), so a call
is `answer` followed by the final `cur_idx++` (`btGetopt_eq`).
-/

namespace Bluetea.Getopt

open CStr

variable {wr : BtGetoptWr} {i : Int}

/-- Taking the next argument, as the value that both loops look for. -/
theorem takeNext_answer (code : UInt8) (required : Prop) [Decidable required] :
    (takeNext i wr >>= fun x =>
      if required ∧ x.1 = none then
        pure (BT_GETOPT_MISSING_ARG, { x.2 with retval := x.1 })
      else pure ((code.toNat : Int), { x.2 with retval := x.1 }))
      = answer i wr (.bare code required) := by
  unfold takeNext answer
  cases wr.arg (i + 1) with
  | error e => rfl
  | ok next =>
    -- the argument is there: either it looks like an option, or it is the value
    by_cases hdash : byteAt next.bytes 0 = dash <;> by_cases hreq : required <;>
      simp [hdash, hreq, bind, Except.bind, pure, Except.pure]

/-! ### The long table -/

section Long

variable {cur : List UInt8} {e : BtGetoptLong} {opt : CStr} {longOpt : List BtGetoptLong}

/-- The two tests of the loop ask whether the entry is meant. -/
theorem names_iff (h : e.opt = some opt) :
    e.names cur ↔ strncmp opt.strlen opt.bytes cur = 0 ∧
      ¬(cur.length > opt.strlen ∧ byteAt cur opt.strlen ≠ eqSign) := by
  have hpre : strncmp opt.strlen opt.bytes cur = 0 ↔ opt.bytes <+: cur :=
    strncmp_eq_zero_iff opt.ne_zero
  rw [hpre]
  simp only [BtGetoptLong.names, h, Bool.or_eq_true, decide_eq_true_eq, List.isPrefixOf_iff_prefix,
    strlen]
  constructor
  · rintro (rfl | ⟨t, rfl⟩)
    · exact ⟨List.prefix_refl _, fun hlen => absurd hlen.1 (Nat.lt_irrefl _)⟩
    · refine ⟨⟨eqSign :: t, by simp⟩, fun hne => hne.2 ?_⟩
      simp [byteAt]
  · rintro ⟨⟨t, rfl⟩, hsep⟩
    cases t with
    | nil => exact Or.inl (by simp)
    | cons b t =>
      -- there is more than the name: the next byte has to be `=`
      have hb : b = eqSign := by
        by_contra hne
        apply hsep
        simp [byteAt, hne]
      subst hb
      exact Or.inr ⟨t, by simp⟩

theorem entries_cons : entries (e :: longOpt) =
    if isEndOfGetoptLong e then [] else e :: entries longOpt := by
  rw [entries, List.takeWhile_cons]
  cases isEndOfGetoptLong e <;> rfl

/-- The entries in front of a sentinel, when all of them have names. -/
theorem entries_append_end {es : List BtGetoptLong} (h : ∀ e ∈ es, e.opt ≠ none) :
    entries (es ++ [getoptLongStructEnd]) = es := by
  unfold entries
  rw [List.takeWhile_append_of_pos]
  · simp [isEndOfGetoptLong, getoptLongStructEnd]
  · intro e he
    simp [isEndOfGetoptLong, getoptLongStructEnd, h e he]

theorem longTableOk_append_end {es : List BtGetoptLong} (h : ∀ e ∈ es, e.opt ≠ none) :
    LongTableOk (es ++ [getoptLongStructEnd]) := by
  constructor
  · exact ⟨getoptLongStructEnd, by simp, rfl⟩
  · rw [entries_append_end h]
    exact h

theorem LongTableOk.tail (h : LongTableOk (e :: longOpt)) (he : isEndOfGetoptLong e = false) :
    e.opt ≠ none ∧ LongTableOk longOpt := by
  have hcons : entries (e :: longOpt) = e :: entries longOpt := by rw [entries_cons, he]; rfl
  have hnamed := h.named
  rw [hcons] at hnamed
  refine ⟨hnamed e (List.mem_cons_self ..), ?_, fun x hx => hnamed x (List.mem_cons_of_mem _ hx)⟩
  -- `e` is not the sentinel, so the sentinel is behind it
  obtain ⟨x, hx, hend⟩ := h.ends
  rcases List.mem_cons.mp hx with rfl | hx
  · rw [he] at hend
    cases hend
  · exact ⟨x, hx, hend⟩

/-- What the loop does at the entry that is meant. -/
theorem trackGetoptLongLoop_found (h : e.opt = some opt) (hend : isEndOfGetoptLong e = false)
    (hnames : e.names cur) :
    trackGetoptLongLoop cur i wr (e :: longOpt) = answer i wr (e.kind cur) := by
  have htests := (names_iff h).mp hnames
  have hpre : opt.bytes <+: cur := (strncmp_eq_zero_iff opt.ne_zero).mp htests.1
  -- no byte behind the name: the argument is the name
  have hlen : cur.length > opt.strlen ↔ opt.bytes ≠ cur := by
    constructor
    · rintro hlt rfl
      exact absurd hlt (Nat.lt_irrefl _)
    · intro hne
      exact Nat.lt_of_le_of_ne hpre.length_le fun heq => hne (hpre.eq_of_length heq)
  rw [trackGetoptLongLoop, hend]
  simp only [Bool.false_eq_true, ↓reduceIte, h]
  rw [if_neg (not_not.mpr htests.1), if_neg htests.2]
  cases hreq : e.argReq with
  | noVal => simp only [BtGetoptLong.kind, h, hreq]; rfl
  | emptyStruct => simp only [BtGetoptLong.kind, h, hreq]; rfl
  | requiredVal =>
    by_cases hcur : opt.bytes = cur
    · have hnlt := (not_congr hlen).mpr (not_not.mpr hcur)
      simp only [BtGetoptLong.kind, h, hreq, hcur, hnlt, ↓reduceIte]
      exact takeNext_answer e.val True
    · simp [BtGetoptLong.kind, h, hreq, hcur, hlen, answer]
      rfl
  | optionalVal =>
    by_cases hcur : opt.bytes = cur
    · have hnlt := (not_congr hlen).mpr (not_not.mpr hcur)
      simp only [BtGetoptLong.kind, h, hreq, hcur, hnlt, ↓reduceIte]
      exact takeNext_answer e.val (.optionalVal = BtGetoptReqArg.requiredVal)
    · simp [BtGetoptLong.kind, h, hreq, hcur, hlen, answer]
      rfl

/-- The loop goes on behind an entry that is not meant. -/
theorem trackGetoptLongLoop_skip (h : e.opt = some opt) (hend : isEndOfGetoptLong e = false)
    (hnames : e.names cur = false) :
    trackGetoptLongLoop cur i wr (e :: longOpt) = trackGetoptLongLoop cur i wr longOpt := by
  have htests := (not_congr (names_iff h)).mp (by rw [hnames]; exact Bool.false_ne_true)
  rw [trackGetoptLongLoop, hend]
  simp only [Bool.false_eq_true, ↓reduceIte, h]
  by_cases hcmp : strncmp opt.strlen opt.bytes cur = 0
  · rw [if_neg (not_not.mpr hcmp), if_pos (by_contra fun hsep => htests ⟨hcmp, hsep⟩)]
  · rw [if_pos hcmp]

/-- The loop answers by the first entry that is meant, or it faults at the end of a table that
cannot be read; which of the two it does is up to the table. -/
theorem trackGetoptLongLoop_cases (cur : List UInt8) (longOpt : List BtGetoptLong) :
    (∀ i wr, trackGetoptLongLoop cur i wr longOpt = answer i wr (longKind (some longOpt) cur)) ∨
      ¬LongTableOk longOpt ∧ ∃ f, ∀ i wr, trackGetoptLongLoop cur i wr longOpt = .error f := by
  induction longOpt with
  | nil =>
    refine Or.inr ⟨?_, .outOfBounds, fun i wr => rfl⟩
    intro h
    obtain ⟨e, he, -⟩ := h.ends
    cases he
  | cons e longOpt ih =>
    unfold longKind
    simp only [entries_cons]
    cases hend : isEndOfGetoptLong e with
    | true =>
      refine Or.inl fun i wr => ?_
      simp only [trackGetoptLongLoop, hend, ↓reduceIte, List.find?_nil]
      rfl
    | false =>
      cases hopt : e.opt with
      -- not the end of the table, yet without a name: the comparison reads through it
      | none =>
        refine Or.inr ⟨?_, .nullDeref, fun i wr => ?_⟩
        · intro h
          exact (h.tail hend).1 hopt
        · simp only [trackGetoptLongLoop, hend, hopt]
          rfl
      | some opt =>
        simp only [Bool.false_eq_true, ↓reduceIte, List.find?_cons]
        cases hnames : e.names cur with
        | true => exact Or.inl fun i wr => trackGetoptLongLoop_found hopt hend hnames
        | false =>
          simp only [trackGetoptLongLoop_skip hopt hend hnames]
          exact ih.imp_right fun ⟨hbad, hfault⟩ => ⟨fun h => hbad (h.tail hend).2, hfault⟩

end Long

/-! ### The short spec -/

theorem trackGetoptShort_eq {curArg : CStr} {d c : UInt8} {value : List UInt8}
    (hcur : curArg.bytes = d :: c :: value) :
    trackGetoptShort curArg i wr = answer i wr (shortKind wr.shortOpt c value) := by
  have hc : byteAt curArg.bytes 1 = c := by rw [hcur]; rfl
  have hlen : curArg.strlen > 2 ↔ value ≠ [] := by
    rw [strlen, hcur]
    cases value <;> simp
  unfold trackGetoptShort
  rw [hc]
  dsimp only
  split
  · next hnone =>
    rw [show shortKind wr.shortOpt c value = .nonOpt by rw [hnone]; rfl]
    rfl
  · next shortOpt hsome =>
    rw [show shortKind wr.shortOpt c value = shortKind (some shortOpt) c value by rw [hsome]]
    unfold shortKind
    dsimp only
    cases scanShortOpt c false shortOpt.bytes with
    | none => rfl
    | some rest =>
      dsimp only
      by_cases hcolon : byteAt rest 0 ≠ colon
      · rw [if_pos hcolon, if_pos hcolon]
        rfl
      · rw [if_neg hcolon, if_neg hcolon]
        by_cases hvalue : value = []
        · -- nothing merged: the value is the next argument
          rw [if_pos hvalue, if_neg (fun h => hlen.mp h hvalue), ← takeNext_answer]
          refine congrArg _ (funext fun x => ?_)
          by_cases hopt : byteAt rest 1 = colon
          · rw [if_pos hopt, if_neg (fun h => h.1 hopt)]
          · rw [if_neg hopt]
            by_cases hnone : x.1 = none
            · rw [if_pos hnone, if_pos ⟨hopt, hnone⟩]
            · rw [if_neg hnone, if_neg (fun h => hnone h.2)]
        · -- the value is merged, and no other argument is read
          rw [if_neg hvalue, if_pos (hlen.mpr hvalue)]
          by_cases hopt : byteAt rest 1 = colon <;> simp [hopt, answer] <;> rfl

/-! ### The whole call -/

/-- The final `cur_idx++`. -/
def bump (p : Int × BtGetoptWr) : Int × BtGetoptWr :=
  (p.1, { p.2 with curIdx := p.2.curIdx + 1 })

theorem btGetopt_end (h : wr.argc ≤ wr.curIdx) :
    btGetopt wr = .ok (BT_GETOPT_END, { wr with retval := none }) := by
  unfold btGetopt
  rw [if_pos h]
  rfl

/-- An index that is out of the argument vector. -/
theorem btGetopt_error {f : Fault} (hlt : wr.curIdx < wr.argc)
    (harg : wr.arg wr.curIdx = .error f) : btGetopt wr = .error f := by
  have hge : ¬wr.curIdx ≥ wr.argc := by omega
  unfold btGetopt
  rw [if_neg hge]
  simp only [harg, bind, Except.bind]

section At

variable {arg : CStr} (hlt : wr.curIdx < wr.argc) (harg : wr.arg wr.curIdx = .ok arg)

include hlt harg

/-- A call at an argument; the increment is in every branch of the code. -/
theorem btGetopt_at :
    btGetopt wr = (if arg.strlen ≥ 2 ∧ byteAt arg.bytes 0 = dash then
        if byteAt arg.bytes 1 = dash then trackGetoptLong arg wr.curIdx wr
        else trackGetoptShort arg wr.curIdx wr
      else pure (BT_GETOPT_NON_OPT, { wr with retval := some ⟨wr.curIdx, 0⟩ })).map bump := by
  have hge : ¬wr.curIdx ≥ wr.argc := by omega
  unfold btGetopt
  rw [if_neg hge]
  simp only [harg, bind, Except.bind]
  split
  · split
    · cases trackGetoptLong arg wr.curIdx wr <;> rfl
    · cases trackGetoptShort arg wr.curIdx wr <;> rfl
  · rfl

/-- At `--cur` the long table is searched. -/
theorem btGetopt_long {cur : List UInt8} {longOpt : List BtGetoptLong}
    (hb : arg.bytes = dash :: dash :: cur) (hlong : wr.longOpt = some longOpt) :
    btGetopt wr = (trackGetoptLongLoop cur wr.curIdx wr longOpt).map bump := by
  have htests : arg.strlen ≥ 2 ∧ byteAt arg.bytes 0 = dash := by
    rw [strlen, hb]
    exact ⟨by simp, rfl⟩
  have hdash : byteAt arg.bytes 1 = dash := by
    rw [hb]
    rfl
  rw [btGetopt_at hlt harg, if_pos htests, if_pos hdash]
  unfold trackGetoptLong
  split
  · next hnone =>
    rw [hlong] at hnone
    cases hnone
  · next longOpt' hsome =>
    rw [hlong] at hsome
    cases hsome
    rw [hb]
    rfl

/-- Any other argument is answered by its kind. -/
theorem btGetopt_other
    (h : ∀ cur, arg.bytes = dash :: dash :: cur → wr.longOpt = none) :
    btGetopt wr = (answer wr.curIdx wr (wr.kind arg.bytes)).map bump := by
  have hlen : arg.strlen = arg.bytes.length := rfl
  rw [btGetopt_at hlt harg]
  -- the two tests on the argument are those that `kind` makes
  cases hb : arg.bytes with
  | nil =>
    rw [if_neg (by rw [hlen, hb]; simp)]
    rfl
  | cons d rest =>
    cases rest with
    | nil =>
      rw [if_neg (by rw [hlen, hb]; simp)]
      rfl
    | cons c value =>
      have htwo : arg.strlen ≥ 2 := by
        rw [hlen, hb]
        simp
      by_cases hd : d = dash
      · subst hd
        rw [if_pos ⟨htwo, rfl⟩]
        by_cases hc : c = dash
        · subst hc
          have hnone := h value hb
          rw [if_pos (show byteAt (dash :: dash :: value) 1 = dash from rfl),
            show wr.kind (dash :: dash :: value) = .nonOpt by
              simp [BtGetoptWr.kind, longKind, hnone]]
          unfold trackGetoptLong
          split
          · rfl
          · next longOpt hsome =>
            rw [hnone] at hsome
            cases hsome
        · rw [show wr.kind (dash :: c :: value) = shortKind wr.shortOpt c value by
            simp [BtGetoptWr.kind, hc]]
          rw [if_neg (show ¬byteAt (dash :: c :: value) 1 = dash from hc), trackGetoptShort_eq hb]
      · rw [show wr.kind (d :: c :: value) = .nonOpt by simp [BtGetoptWr.kind, hd]]
        rw [if_neg (fun h => hd h.2)]
        rfl

end At

/-- The wrapper with another value left in `retval`. -/
def BtGetoptWr.withRetval (wr : BtGetoptWr) (r : Option ArgPtr) : BtGetoptWr :=
  { wr with retval := r }

/-- A call at an argument answers by its kind and moves on, or it faults because the long table
cannot be read; in either case whatever is in `retval`. -/
theorem btGetopt_cases {arg : CStr} (hlt : wr.curIdx < wr.argc)
    (harg : wr.arg wr.curIdx = .ok arg) :
    (∀ r, btGetopt (wr.withRetval r)
      = (answer wr.curIdx (wr.withRetval r) (wr.kind arg.bytes)).map bump) ∨
    (∃ longOpt, wr.longOpt = some longOpt ∧ ¬LongTableOk longOpt) ∧
      ∃ f, ∀ r, btGetopt (wr.withRetval r) = .error f := by
  -- only a long option with a long table walks a list that may have no end
  by_cases hother : ∀ cur, arg.bytes = dash :: dash :: cur → wr.longOpt = none
  · refine Or.inl fun r => ?_
    exact btGetopt_other hlt harg hother
  · obtain ⟨cur, hother⟩ := not_forall.mp hother
    obtain ⟨hb, hsome⟩ := Classical.not_imp.mp hother
    obtain ⟨longOpt, hlong⟩ := Option.ne_none_iff_exists'.mp hsome
    have hkind : wr.kind arg.bytes = longKind (some longOpt) cur := by
      rw [hb, ← hlong]
      rfl
    have hcall : ∀ r, btGetopt (wr.withRetval r)
        = (trackGetoptLongLoop cur wr.curIdx (wr.withRetval r) longOpt).map bump := by
      intro r
      apply btGetopt_long
      · exact hlt
      · exact harg
      · exact hb
      · exact hlong
    rw [hkind]
    rcases trackGetoptLongLoop_cases cur longOpt with heq | ⟨hbad, f, hfault⟩
    · refine Or.inl fun r => ?_
      rw [hcall r, heq]
    · refine Or.inr ⟨⟨longOpt, hlong, hbad⟩, f, fun r => ?_⟩
      rw [hcall r, hfault]
      rfl

/-- With a table that can be read, the call answers. -/
theorem btGetopt_eq (hok : ∀ longOpt, wr.longOpt = some longOpt → LongTableOk longOpt) {arg : CStr}
    (hlt : wr.curIdx < wr.argc) (harg : wr.arg wr.curIdx = .ok arg) :
    btGetopt wr = (answer wr.curIdx wr (wr.kind arg.bytes)).map bump := by
  rcases btGetopt_cases hlt harg with h | ⟨⟨longOpt, hlong, hbad⟩, -⟩
  · exact h wr.retval
  · exact absurd (hok longOpt hlong) hbad

/-- A call that does not fault is past the last argument, or it answered; and it does the same
whatever is in `retval`. -/
theorem btGetopt_ok_cases {p : Int × BtGetoptWr} (h : btGetopt wr = .ok p) :
    (wr.argc ≤ wr.curIdx ∧
      ∀ r, btGetopt (wr.withRetval r) = .ok (BT_GETOPT_END, { wr with retval := none })) ∨
    ∃ arg, wr.curIdx < wr.argc ∧ wr.arg wr.curIdx = .ok arg ∧
      ∀ r, btGetopt (wr.withRetval r)
        = (answer wr.curIdx (wr.withRetval r) (wr.kind arg.bytes)).map bump := by
  by_cases hlt : wr.curIdx < wr.argc
  · refine Or.inr ?_
    cases harg : wr.arg wr.curIdx with
    | error f =>
      rw [btGetopt_error hlt harg] at h
      cases h
    | ok arg =>
      rcases btGetopt_cases hlt harg with heq | ⟨-, f, hfault⟩
      · exact ⟨arg, hlt, rfl, heq⟩
      · have herror : btGetopt wr = .error f := hfault wr.retval
        rw [herror] at h
        cases h
  · have hle : wr.argc ≤ wr.curIdx := by omega
    exact Or.inl ⟨hle, fun r => btGetopt_end hle⟩

/-- A call that answers reports what it answered. -/
theorem call_eq_reports {k : Kind} (h : btGetopt wr = (answer wr.curIdx wr k).map bump) :
    wr.call = wr.reports k := by
  unfold BtGetoptWr.call BtGetoptWr.reports
  rw [h]
  cases answer wr.curIdx wr k <;> rfl

/-- The string at an index of the argument vector. -/
theorem arg_of_lt {k : ℕ} (hk : k < wr.argv.length) : wr.arg k = .ok wr.argv[k] := by
  have hin : ¬((k : Int) < 0 ∨ (wr.argv.length : Int) < k) := by omega
  unfold BtGetoptWr.arg
  rw [if_neg hin]
  simp [hk]
  rfl

/-- The pointer behind the last string is null. -/
theorem arg_length : wr.arg wr.argv.length = .error .nullDeref := by
  have hin : ¬((wr.argv.length : Int) < 0 ∨ (wr.argv.length : Int) < wr.argv.length) := by omega
  unfold BtGetoptWr.arg
  rw [if_neg hin]
  simp
  rfl

end Bluetea.Getopt
