import Bluetea.Getopt.Equiv.Stale

/-!
# The rest of an accepted argument

A call that accepts an argument either points into it or has read all of it, except at an option
that takes no value: there the parser stops at the name, and whatever is written behind it is
accepted and dropped (`btGetopt_dropsNothing_iff`).
-/

namespace Bluetea.Getopt

open CStr

variable {wr : BtGetoptWr} {arg : List UInt8}

/-- The dashes and the name of the option that an argument selects. -/
def BtGetoptWr.optionText (wr : BtGetoptWr) : List UInt8 → Option (List UInt8)
  | d :: c :: rest =>
    if d ≠ dash then none
    else if c = dash then do
      let longOpt ← wr.longOpt
      let e ← (entries longOpt).find? (BtGetoptLong.names rest)
      let opt ← e.opt
      return dash :: dash :: opt.bytes
    else do
      let shortOpt ← wr.shortOpt
      let _ ← scanShortOpt c false shortOpt.bytes
      return [dash, c]
  | _ => none

/-- The argument is an option that takes no value, with more text behind its name. -/
inductive BtGetoptWr.FlagWithText (wr : BtGetoptWr) : List UInt8 → Prop
  /-- `--opt=value` -/
  | long {cur : List UInt8} {longOpt : List BtGetoptLong} {e : BtGetoptLong} {opt : CStr} :
      wr.longOpt = some longOpt →
      (entries longOpt).find? (BtGetoptLong.names cur) = some e → e.opt = some opt →
      e.argReq = .noVal → opt.bytes ≠ cur → FlagWithText wr (dash :: dash :: cur)
  /-- `-cvalue` -/
  | short {c : UInt8} {value rest : List UInt8} {shortOpt : CStr} :
      c ≠ dash → wr.shortOpt = some shortOpt →
      scanShortOpt c false shortOpt.bytes = some rest → byteAt rest 0 ≠ colon → value ≠ [] →
      FlagWithText wr (dash :: c :: value)

def BtGetoptWr.AtFlagWithText (wr : BtGetoptWr) : Prop :=
  wr.curIdx < wr.argc ∧ ∃ arg, wr.arg wr.curIdx = .ok arg ∧ wr.FlagWithText arg.bytes

/-- The call drops no text: an argument that is accepted and not pointed into is an option and
nothing else, and text behind an option that takes none is an error. -/
structure BtGetoptWr.DropsNothing (wr : BtGetoptWr) : Prop where
  whole : ∀ c arg, wr.call = .ok c → wr.arg wr.curIdx = .ok arg → 0 ≤ c.ret →
    (∀ ptr, c.retval = some ptr → ptr.idx ≠ wr.curIdx) →
    wr.optionText arg.bytes = some arg.bytes
  reported : ∀ c, wr.call = .ok c → wr.AtFlagWithText → c.ret < 0

/-! ### What the kind says about the text -/

theorem optionText_long {cur : List UInt8} {longOpt : List BtGetoptLong} {e : BtGetoptLong}
    {opt : CStr} (hlong : wr.longOpt = some longOpt)
    (hfind : (entries longOpt).find? (BtGetoptLong.names cur) = some e) (hopt : e.opt = some opt) :
    wr.optionText (dash :: dash :: cur) = some (dash :: dash :: opt.bytes) := by
  simp [BtGetoptWr.optionText, hlong, hfind, hopt]

theorem optionText_short {c : UInt8} {value rest : List UInt8} {shortOpt : CStr} (hc : c ≠ dash)
    (hshort : wr.shortOpt = some shortOpt)
    (hscan : scanShortOpt c false shortOpt.bytes = some rest) :
    wr.optionText (dash :: c :: value) = some [dash, c] := by
  simp [BtGetoptWr.optionText, hc, hshort, hscan]

/-- Such an argument is a flag to the parser, and not the text of its option. -/
theorem FlagWithText.kind (h : wr.FlagWithText arg) :
    (∃ code, wr.kind arg = .flag code) ∧ wr.optionText arg ≠ some arg := by
  cases h with
  | @long cur longOpt e opt hlong hfind hopt hreq hne =>
    constructor
    · have hkind : wr.kind (dash :: dash :: cur) = longKind wr.longOpt cur := rfl
      refine ⟨e.val, ?_⟩
      rw [hkind, hlong, longKind]
      simp only [hfind, BtGetoptLong.kind, hopt, hreq]
    · -- the text is what stands behind the name, and `hne` says that something does
      rw [optionText_long hlong hfind hopt]
      intro h
      exact hne (List.cons.inj (List.cons.inj (Option.some.inj h)).2).2
  | @short c value rest shortOpt hc hshort hscan hcolon hne =>
    constructor
    · refine ⟨c, ?_⟩
      rw [show wr.kind (dash :: c :: value) = shortKind wr.shortOpt c value by
        simp [BtGetoptWr.kind, hc]]
      rw [hshort, shortKind_found hscan, if_pos hcolon]
    · rw [optionText_short hc hshort hscan]
      intro h
      exact hne (List.cons.inj (List.cons.inj (Option.some.inj h)).2).2.symm

/-- Only an entry that takes no value is a flag. -/
theorem noVal_of_kind_flag {e : BtGetoptLong} {cur : List UInt8} {code : UInt8}
    (h : e.kind cur = .flag code) : ∃ opt, e.opt = some opt ∧ e.argReq = .noVal := by
  cases hopt : e.opt with
  | none =>
    simp only [BtGetoptLong.kind, hopt] at h
    cases h
  | some opt =>
    refine ⟨opt, rfl, ?_⟩
    cases hreq : e.argReq with
    | noVal => rfl
    | emptyStruct =>
      simp only [BtGetoptLong.kind, hopt, hreq] at h
      cases h
    | requiredVal =>
      simp only [BtGetoptLong.kind, hopt, hreq] at h
      split_ifs at h
    | optionalVal =>
      simp only [BtGetoptLong.kind, hopt, hreq] at h
      split_ifs at h

/-- Any other argument that is accepted without a value of its own is the text of its option. -/
theorem optionText_of_kind (hflag : ¬wr.FlagWithText arg)
    (h : (∃ code, wr.kind arg = .flag code) ∨ ∃ code required, wr.kind arg = .bare code required) :
    wr.optionText arg = some arg := by
  rcases kind_cases wr arg with (h' | h') | ⟨cur, longOpt, e, rfl, hlong, hfind, h'⟩ |
    ⟨c, value, shortOpt, rest, rfl, hc, hshort, hscan, h'⟩
  · rw [h'] at h
    rcases h with ⟨code, h⟩ | ⟨code, required, h⟩ <;> cases h
  · rw [h'] at h
    rcases h with ⟨code, h⟩ | ⟨code, required, h⟩ <;> cases h
  · rw [h'] at h
    rcases h with ⟨code, h⟩ | ⟨code, required, h⟩
    · -- a flag: the argument is the name, or it is one of those excluded
      obtain ⟨opt, hopt, hreq⟩ := noVal_of_kind_flag h
      have hcur : opt.bytes = cur :=
        not_not.mp fun hne => hflag (.long hlong hfind hopt hreq hne)
      rw [optionText_long hlong hfind hopt, hcur]
    · obtain ⟨opt, hopt, rfl, -⟩ := kind_eq_bare_iff.mp h
      exact optionText_long hlong hfind hopt
  · have hvalue : value = [] := by
      by_contra hne
      rw [h', shortKind_found hscan] at h
      by_cases hcolon : byteAt rest 0 ≠ colon
      · exact hflag (.short hc hshort hscan hcolon hne)
      · -- with a colon in the spec the value is pointed to
        rw [if_neg hcolon, if_neg hne] at h
        rcases h with ⟨code, h⟩ | ⟨code, required, h⟩ <;> cases h
    rw [optionText_short hc hshort hscan, hvalue]

/-- What the kind of an accepted argument can be. -/
theorem kind_of_accepted {i : Int} {k : Kind} {q : Int × BtGetoptWr} (h : answer i wr k = .ok q)
    (hret : 0 ≤ q.1) :
    (∃ code, k = .flag code) ∨ (∃ code off, k = .attached code off ∧ q.2.retval = some ⟨i, off⟩) ∨
      ∃ code required, k = .bare code required := by
  cases k with
  | flag code => exact Or.inl ⟨code, rfl⟩
  | attached code off =>
    cases h
    exact Or.inr (Or.inl ⟨code, off, rfl, rfl⟩)
  | bare code required => exact Or.inr (Or.inr ⟨code, required, rfl⟩)
  | nonOpt =>
    cases h
    cases hret
  | unknown =>
    cases h
    cases hret
  | invalid =>
    cases h
    cases hret

/-- A call that does not fault drops nothing exactly when it is not made at such an argument. -/
theorem btGetopt_dropsNothing_iff {p : Int × BtGetoptWr} (h : btGetopt wr = .ok p) :
    wr.DropsNothing ↔ ¬wr.AtFlagWithText := by
  rcases btGetopt_ok_cases h with ⟨hle, hend⟩ | ⟨arg, hlt, harg, hanswer⟩
  · have hat : ¬wr.AtFlagWithText := fun hat => absurd hat.1 (by omega)
    refine iff_of_true ⟨?_, fun c _ hat' => absurd hat' hat⟩ hat
    intro c arg hc _ hret
    -- `BT_GETOPT_END` is not an acceptance
    unfold BtGetoptWr.call at hc
    rw [show btGetopt wr = _ from hend wr.retval] at hc
    cases hc
    cases hret
  · have hcall : wr.call = wr.reports (wr.kind arg.bytes) := call_eq_reports (hanswer wr.retval)
    constructor
    · rintro hdrops ⟨-, arg', harg', hflag⟩
      rw [harg] at harg'
      cases harg'
      obtain ⟨⟨code, hkind⟩, hne⟩ := FlagWithText.kind hflag
      have hc : wr.call = .ok ⟨wr.curIdx, code.toNat, none, wr.curIdx + 1⟩ := by
        rw [hcall, hkind]
        rfl
      apply hne
      apply hdrops.whole _ arg hc harg (Int.natCast_nonneg _)
      intro ptr hptr
      cases hptr
    · intro hat
      refine ⟨?_, fun c _ hat' => absurd hat' hat⟩
      intro c arg' hc harg' hret houtside
      rw [harg] at harg'
      cases harg'
      have hflag : ¬wr.FlagWithText arg.bytes := fun hflag => hat ⟨hlt, arg, harg, hflag⟩
      rw [hcall] at hc
      obtain ⟨q, hq, rfl⟩ := call_of_reports hc
      rcases kind_of_accepted hq hret with hkind | ⟨code, off, -, hretval⟩ | hkind
      · exact optionText_of_kind hflag (Or.inl hkind)
      · -- the value is in the argument
        exact absurd rfl (houtside _ hretval)
      · exact optionText_of_kind hflag (Or.inr hkind)

theorem btGetopt_dropsNothing_iff_flag : flagWr.DropsNothing ↔ ¬flagWr.AtFlagWithText :=
  btGetopt_dropsNothing_iff (p := (120, { flagWr with curIdx := 1 })) rfl

/-! ### Text that is dropped -/

/-- `flagWr` at another argument, with `x` for a short option too. -/
def flagTextWr (arg : CStr) : BtGetoptWr :=
  { flagWr with argv := [arg], shortOpt := some flagName }

/-- `--x=v` -/
def longText : CStr := ⟨[dash, dash, 120, eqSign, 118], CStr.ne_zero_of_all rfl⟩

/-- `-xyz` -/
def shortText : CStr := ⟨[dash, 120, 121, 122], CStr.ne_zero_of_all rfl⟩

/-- Both are accepted, and nothing points to what is behind the `x`. -/
theorem flagTextWr_drops :
    ((flagTextWr longText).call = .ok ⟨0, 120, none, 1⟩ ∧ ¬(flagTextWr longText).DropsNothing) ∧
    (flagTextWr shortText).call = .ok ⟨0, 120, none, 1⟩ ∧
      ¬(flagTextWr shortText).DropsNothing := by
  constructor
  · refine ⟨rfl, fun hdrops => ?_⟩
    have hwhole := hdrops.whole ⟨0, 120, none, 1⟩ longText rfl rfl (by decide) fun ptr hptr => by
      cases hptr
    exact absurd hwhole (by decide)
  · refine ⟨rfl, fun hdrops => ?_⟩
    have hwhole := hdrops.whole ⟨0, 120, none, 1⟩ shortText rfl rfl (by decide) fun ptr hptr => by
      cases hptr
    exact absurd hwhole (by decide)

end Bluetea.Getopt
