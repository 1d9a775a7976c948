import Bluetea.Getopt.Equiv.Bounds

/-!
# What was in `retval` before the call

Every branch of the parser writes `retval`, except the one that is taken at an entry of the long
table that asks neither for a value nor for none (`BtGetoptWr.AtInvalid`).  So a call depends on
the value that the call before has left there exactly when it is made at such an entry
(`btGetopt_fresh_iff`).
-/

namespace Bluetea.Getopt

open CStr

variable {wr : BtGetoptWr}

/-- What was in `retval` is not seen in the result, and an error leaves it null. -/
structure BtGetoptWr.Fresh (wr : BtGetoptWr) : Prop where
  same : ∀ r r', (wr.withRetval r).call = (wr.withRetval r').call
  null : ∀ r c, (wr.withRetval r).call = .ok c → c.ret < 0 → c.ret ≠ BT_GETOPT_NON_OPT →
    c.retval = none

/-- The call is made at a long option, and the first entry that it means has for `arg_req` neither
`REQUIRED_VAL` nor `OPTIONAL_VAL` nor `NO_VAL`. -/
def BtGetoptWr.AtInvalid (wr : BtGetoptWr) : Prop :=
  wr.curIdx < wr.argc ∧ ∃ arg cur longOpt e, wr.arg wr.curIdx = .ok arg ∧
    arg.bytes = dash :: dash :: cur ∧ wr.longOpt = some longOpt ∧
    (entries longOpt).find? (BtGetoptLong.names cur) = some e ∧ e.argReq = .emptyStruct

/-- Only such an entry is answered with `EINVAL`. -/
theorem entry_kind_invalid_iff {e : BtGetoptLong} {cur : List UInt8} (hnames : e.names cur) :
    e.kind cur = .invalid ↔ e.argReq = .emptyStruct := by
  unfold BtGetoptLong.kind
  cases hopt : e.opt with
  | none =>
    rw [BtGetoptLong.names, hopt] at hnames
    cases hnames
  | some opt =>
    -- the other three values are answered with a code
    cases e.argReq with
    | emptyStruct => simp
    | noVal => simp
    | requiredVal => by_cases hcur : opt.bytes = cur <;> simp [hcur]
    | optionalVal => by_cases hcur : opt.bytes = cur <;> simp [hcur]

theorem kind_invalid_iff {arg : List UInt8} :
    wr.kind arg = .invalid ↔ ∃ cur longOpt e, arg = dash :: dash :: cur ∧
      wr.longOpt = some longOpt ∧ (entries longOpt).find? (BtGetoptLong.names cur) = some e ∧
      e.argReq = .emptyStruct := by
  constructor
  · intro h
    rcases kind_cases wr arg with (h' | h') | ⟨cur, longOpt, e, hb, hlong, hfind, h'⟩ |
      ⟨c, value, shortOpt, rest, -, -, -, hscan, h'⟩
    · rw [h'] at h
      cases h
    · rw [h'] at h
      cases h
    · rw [h'] at h
      exact ⟨cur, longOpt, e, hb, hlong, hfind,
        (entry_kind_invalid_iff (List.find?_some hfind)).mp h⟩
    · rw [h', shortKind_found hscan] at h
      split_ifs at h
  · rintro ⟨cur, longOpt, e, rfl, hlong, hfind, hreq⟩
    have hkind : wr.kind (dash :: dash :: cur) = longKind wr.longOpt cur := rfl
    rw [hkind, hlong, longKind]
    simp only [hfind]
    exact (entry_kind_invalid_iff (List.find?_some hfind)).mpr hreq

theorem atInvalid_iff {arg : CStr} (hlt : wr.curIdx < wr.argc) (harg : wr.arg wr.curIdx = .ok arg) :
    wr.AtInvalid ↔ wr.kind arg.bytes = .invalid := by
  rw [kind_invalid_iff]
  constructor
  · rintro ⟨-, arg', cur, longOpt, e, harg', hentry⟩
    rw [harg] at harg'
    cases harg'
    exact ⟨cur, longOpt, e, hentry⟩
  · rintro ⟨cur, longOpt, e, hentry⟩
    exact ⟨hlt, arg, cur, longOpt, e, harg, hentry⟩

/-- Every other answer writes `retval`. -/
theorem answer_withRetval {i : Int} {k : Kind} (hk : k ≠ .invalid) (r : Option ArgPtr) :
    answer i (wr.withRetval r) k = answer i wr k := by
  cases k with
  | invalid => exact absurd rfl hk
  | nonOpt => rfl
  | unknown => rfl
  | flag code => rfl
  | attached code off => rfl
  | bare code required => rfl

/-- An error that is not `EINVAL` leaves a null pointer. -/
theorem answer_null {i : Int} {k : Kind} {p : Int × BtGetoptWr} (hk : k ≠ .invalid)
    (h : answer i wr k = .ok p) (hneg : p.1 < 0) (hnon : p.1 ≠ BT_GETOPT_NON_OPT) :
    p.2.retval = none := by
  cases k with
  | invalid => exact absurd rfl hk
  | nonOpt =>
    cases h
    exact absurd rfl hnon
  | unknown =>
    cases h
    rfl
  | flag code =>
    cases h
    exact absurd hneg (Int.not_lt.mpr (Int.natCast_nonneg _))
  | attached code off =>
    cases h
    exact absurd hneg (Int.not_lt.mpr (Int.natCast_nonneg _))
  | bare code required =>
    unfold answer at h
    cases harg : wr.arg (i + 1) with
    | error f =>
      rw [harg] at h
      cases h
    | ok next =>
      rw [harg] at h
      simp only [bind, Except.bind] at h
      by_cases hdash : byteAt next.bytes 0 = dash
      · rw [if_pos hdash] at h
        cases h
        rfl
      · -- the next argument is the value, and the code is returned
        rw [if_neg hdash] at h
        cases h
        exact absurd hneg (Int.not_lt.mpr (Int.natCast_nonneg _))

theorem call_of_reports {k : Kind} {c : Call} (h : wr.reports k = .ok c) :
    ∃ p, answer wr.curIdx wr k = .ok p ∧ c = ⟨wr.curIdx, p.1, p.2.retval, p.2.curIdx + 1⟩ := by
  unfold BtGetoptWr.reports at h
  cases hanswer : answer wr.curIdx wr k with
  | error f =>
    rw [hanswer] at h
    cases h
  | ok p =>
    rw [hanswer] at h
    cases h
    exact ⟨p, rfl, rfl⟩

/-- A call that does not fault carries no stale value exactly when it is not made at an entry with
another `arg_req`. -/
theorem btGetopt_fresh_iff {p : Int × BtGetoptWr} (h : btGetopt wr = .ok p) :
    wr.Fresh ↔ ¬wr.AtInvalid := by
  rcases btGetopt_ok_cases h with ⟨hle, hend⟩ | ⟨arg, hlt, harg, hanswer⟩
  · -- past the last argument: `BT_GETOPT_END`, and a null pointer
    have hcall : ∀ r, (wr.withRetval r).call
        = .ok ⟨wr.curIdx, BT_GETOPT_END, none, wr.curIdx⟩ := by
      intro r
      unfold BtGetoptWr.call
      rw [hend r]
      rfl
    refine iff_of_true ⟨?_, ?_⟩ fun hat => absurd hat.1 (by omega)
    · intro r r'
      rw [hcall r, hcall r']
    · intro r c hc _ _
      rw [hcall r] at hc
      cases hc
      rfl
  · have hcall : ∀ r, (wr.withRetval r).call = (wr.withRetval r).reports (wr.kind arg.bytes) :=
      fun r => call_eq_reports (hanswer r)
    rw [atInvalid_iff hlt harg]
    constructor
    · -- two values that `EINVAL` leaves as they are
      intro hfresh hinvalid
      have hsame := hfresh.same none (some ⟨0, 0⟩)
      rw [hcall, hcall, hinvalid] at hsame
      cases hsame
    · intro hk
      constructor
      · intro r r'
        rw [hcall, hcall]
        unfold BtGetoptWr.reports
        rw [answer_withRetval hk, answer_withRetval hk]
        rfl
      · intro r c hc hneg hnon
        rw [hcall] at hc
        obtain ⟨q, hq, rfl⟩ := call_of_reports hc
        exact answer_null hk hq hneg hnon

/-! ### An entry without a kind -/

theorem flagName_ne_zero : ∀ b ∈ ([120] : List UInt8), b ≠ 0 := CStr.ne_zero_of_all rfl

/-- `x` -/
def flagName : CStr := ⟨[120], flagName_ne_zero⟩

/-- A table with the entry `x`, whose `arg_req` is left empty. -/
def kindlessWr : BtGetoptWr where
  argc := 1
  argv := [⟨[dash, dash, 120], CStr.ne_zero_of_all rfl⟩]
  shortOpt := none
  longOpt := some [⟨some flagName, .emptyStruct, 120⟩, getoptLongStructEnd]
  retval := none
  curIdx := 0

/-- The same with `x` a flag. -/
def flagWr : BtGetoptWr :=
  { kindlessWr with longOpt := some [⟨some flagName, .noVal, 120⟩, getoptLongStructEnd] }

theorem btGetopt_fresh_iff_flag : flagWr.Fresh ↔ ¬flagWr.AtInvalid :=
  btGetopt_fresh_iff (p := (120, { flagWr with curIdx := 1 })) rfl

/-- `--x` is answered with `EINVAL` and the pointer of the call before. -/
theorem kindlessWr_stale :
    (kindlessWr.withRetval none).call = .ok ⟨0, BT_GETOPT_EINVAL, none, 1⟩ ∧
    (kindlessWr.withRetval (some ⟨0, 2⟩)).call = .ok ⟨0, BT_GETOPT_EINVAL, some ⟨0, 2⟩, 1⟩ ∧
    ¬kindlessWr.Fresh := by
  refine ⟨rfl, rfl, fun hfresh => ?_⟩
  have hnull := hfresh.null (some ⟨0, 2⟩) ⟨0, BT_GETOPT_EINVAL, some ⟨0, 2⟩, 1⟩ rfl (by decide)
    (by decide)
  cases hnull

end Bluetea.Getopt
