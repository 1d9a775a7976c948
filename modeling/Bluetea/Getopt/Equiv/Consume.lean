import Bluetea.Getopt.Equiv.Bounds

/-!
# A run consumes the arguments once, in order

`Call.Law` is the law of one call in range: it moves by one argument, or by two when it reports
the next argument as a value.  Along a run the arguments of the calls follow one another without
a gap (`run_consumes`).
-/

namespace Bluetea.Getopt

open CStr

/-- An option of this code is in the tables, and the argument is written as one. -/
inductive BtGetoptWr.Present (wr : BtGetoptWr) : List UInt8 → UInt8 → Prop
  | long {longOpt : List BtGetoptLong} {e : BtGetoptLong} {cur : List UInt8} :
      wr.longOpt = some longOpt → e ∈ entries longOpt → e.names cur →
      Present wr (dash :: dash :: cur) e.val
  | short {shortOpt : CStr} {c : UInt8} {value : List UInt8} :
      wr.shortOpt = some shortOpt → c ∈ shortOpt.bytes → c ≠ dash →
      Present wr (dash :: c :: value) c

/-- The integers from `a` on below `b`. -/
def between (a b : Int) : List Int := (List.range (b - a).toNat).map fun k : ℕ => a + k

/-- The arguments a call reports. -/
def Call.indices (c : Call) : List Int := between c.idx c.next

/-- The law of a call at an argument. -/
structure Call.Law (wr : BtGetoptWr) (c : Call) : Prop where
  /-- One argument, with a value inside it, or two, the second of them the value. -/
  moves :
    (c.next = c.idx + 1 ∧
      (c.retval = none ∨ c.retval = some ⟨c.idx, 0⟩ ∨
        ∃ off arg, c.retval = some ⟨c.idx, off⟩ ∧ 0 < off ∧ wr.arg c.idx = .ok arg ∧
          off ≤ arg.strlen) ∧
      (c.retval = some ⟨c.idx, 0⟩ ↔ c.ret = BT_GETOPT_NON_OPT)) ∨
    (c.next = c.idx + 2 ∧ c.retval = some ⟨c.idx + 1, 0⟩ ∧ 0 ≤ c.ret ∧
      ∃ value, wr.arg (c.idx + 1) = .ok value ∧ byteAt value.bytes 0 ≠ dash)
  /-- An option is reported only when it is there. -/
  present : 0 ≤ c.ret → ∃ arg code, wr.arg c.idx = .ok arg ∧ wr.Present arg.bytes code ∧
    c.ret = code.toNat
  ne_end : c.ret ≠ BT_GETOPT_END

/-- Two wrappers over the same command line and the same tables. -/
structure BtGetoptWr.Same (wr wr' : BtGetoptWr) : Prop where
  argc : wr'.argc = wr.argc
  argv : wr'.argv = wr.argv
  shortOpt : wr'.shortOpt = wr.shortOpt
  longOpt : wr'.longOpt = wr.longOpt

/-- No entry leaves open whether it takes a value. -/
def BtGetoptWr.ReqArgs (wr : BtGetoptWr) : Prop :=
  ∀ longOpt, wr.longOpt = some longOpt → ∀ e ∈ entries longOpt, e.argReq ≠ .emptyStruct

variable {wr wr' : BtGetoptWr}

/-! ### What the tables say -/

/-- The kinds of a table entry. -/
theorem entry_kind_cases {e : BtGetoptLong} {cur : List UInt8} (hnames : e.names cur)
    (hreq : e.argReq ≠ .emptyStruct) :
    e.kind cur = .flag e.val ∨ (∃ required, e.kind cur = .bare e.val required) ∨
      ∃ off, e.kind cur = .attached e.val off ∧ 0 < off ∧ off ≤ 2 + cur.length := by
  unfold BtGetoptLong.names at hnames
  unfold BtGetoptLong.kind
  cases hopt : e.opt with
  | none => simp [hopt] at hnames
  | some opt =>
    -- more than the name: the name and `=` fit, and the value begins behind them
    have hlen : opt.bytes ≠ cur → 2 + opt.strlen + 1 ≤ 2 + cur.length := by
      intro hne
      simp only [hopt, hne, decide_false, Bool.false_or, List.isPrefixOf_iff_prefix] at hnames
      have := hnames.length_le
      simp only [List.length_append, List.length_singleton] at this
      unfold strlen
      omega
    cases hval : e.argReq with
    | emptyStruct => exact absurd hval hreq
    | noVal => exact Or.inl rfl
    | requiredVal =>
      by_cases hcur : opt.bytes = cur
      · exact Or.inr (Or.inl ⟨_, if_pos hcur⟩)
      · exact Or.inr (Or.inr ⟨_, if_neg hcur, by omega, hlen hcur⟩)
    | optionalVal =>
      by_cases hcur : opt.bytes = cur
      · exact Or.inr (Or.inl ⟨_, if_pos hcur⟩)
      · exact Or.inr (Or.inr ⟨_, if_neg hcur, by omega, hlen hcur⟩)

/-- The kinds of an argument, with what the tables have for it. -/
theorem kind_law (hreq : wr.ReqArgs) (arg : List UInt8) :
    (wr.kind arg = .nonOpt ∨ wr.kind arg = .unknown) ∨
    ∃ code, wr.Present arg code ∧
      (wr.kind arg = .flag code ∨ (∃ required, wr.kind arg = .bare code required) ∨
        ∃ off, wr.kind arg = .attached code off ∧ 0 < off ∧ off ≤ arg.length) := by
  rcases kind_cases wr arg with h | ⟨cur, longOpt, e, rfl, hlong, hfind, hkind⟩ |
    ⟨c, value, shortOpt, rest, rfl, hc, hshort, hscan, hkind⟩
  · exact Or.inl h
  · have hmem := List.mem_of_find?_eq_some hfind
    have hnames := List.find?_some hfind
    have hlen : (dash :: dash :: cur).length = 2 + cur.length := by
      rw [List.length_cons, List.length_cons]
      omega
    refine Or.inr ⟨e.val, .long hlong hmem hnames, ?_⟩
    rw [hkind, hlen]
    exact entry_kind_cases hnames (hreq longOpt hlong e hmem)
  · obtain ⟨pre, hspec, -, -⟩ := scanShortOpt_eq_some_iff.mp hscan
    refine Or.inr ⟨c, .short hshort (by rw [hspec]; simp) hc, ?_⟩
    rw [hkind, shortKind_found hscan]
    by_cases h0 : byteAt rest 0 ≠ colon
    · exact Or.inl (if_pos h0)
    · by_cases hvalue : value = []
      · exact Or.inr (Or.inl ⟨_, by rw [if_neg h0, if_pos hvalue]⟩)
      · exact Or.inr (Or.inr ⟨2, by rw [if_neg h0, if_neg hvalue], by omega, by simp⟩)

/-! ### One call -/

/-- The call that `bt_getopt` makes of `wr` when it returns `ret` and `wr'`. -/
def callOf (wr : BtGetoptWr) (ret : Int) (wr' : BtGetoptWr) : Call :=
  ⟨wr.curIdx, ret, wr'.retval, wr'.curIdx⟩

theorem lt_argc_of_arg (hok : wr.Ok) {i : Int} {value : CStr} (h : wr.arg i = .ok value) :
    i < wr.argc := by
  have hargc := hok.argc_eq
  unfold BtGetoptWr.arg at h
  by_cases hout : i < 0 ∨ (wr.argv.length : Int) < i
  · rw [if_pos hout] at h
    cases h
  · rw [if_neg hout] at h
    cases hget : wr.argv[i.toNat]? with
    | none =>
      rw [hget] at h
      cases h
    | some s =>
      obtain ⟨hlt, -⟩ := List.getElem?_eq_some_iff.mp hget
      omega

/-- What a call at a bare option does when it does not fault. -/
theorem answer_bare {i ret : Int} {code : UInt8} {required : Bool}
    (h : (answer i wr (.bare code required)).map bump = .ok (ret, wr')) :
    ∃ next, wr.arg (i + 1) = .ok next ∧
      ((byteAt next.bytes 0 = dash ∧
          ret = (if required then BT_GETOPT_MISSING_ARG else (code.toNat : Int)) ∧
          wr' = { wr with retval := none, curIdx := wr.curIdx + 1 }) ∨
        (byteAt next.bytes 0 ≠ dash ∧ ret = code.toNat ∧
          wr' = { wr with retval := some ⟨i + 1, 0⟩, curIdx := wr.curIdx + 1 + 1 })) := by
  rw [answer] at h
  cases hnext : wr.arg (i + 1) with
  | error e =>
    rw [hnext] at h
    cases h
  | ok next =>
    rw [hnext] at h
    simp only [bind, Except.bind] at h
    by_cases hdash : byteAt next.bytes 0 = dash
    · rw [if_pos hdash] at h
      cases h
      exact ⟨next, rfl, Or.inl ⟨hdash, rfl, rfl⟩⟩
    · rw [if_neg hdash] at h
      cases h
      exact ⟨next, rfl, Or.inr ⟨hdash, rfl, rfl⟩⟩

/-- A code is none of the negative returns. -/
theorem code_ne (code : UInt8) : (code.toNat : Int) ≠ BT_GETOPT_NON_OPT ∧
    (code.toNat : Int) ≠ BT_GETOPT_END := by
  unfold BT_GETOPT_NON_OPT BT_GETOPT_END
  omega

/-- A call changes `retval` and `cur_idx` only. -/
theorem BtGetoptWr.same_moved (wr : BtGetoptWr) (retval : Option ArgPtr) (i : Int) :
    wr.Same { wr with retval := retval, curIdx := i } :=
  ⟨rfl, rfl, rfl, rfl⟩

/-- The law of a call that reports an option and no value. -/
theorem Call.law_none {i ret : Int} (hnon : ret ≠ BT_GETOPT_NON_OPT) (hend : ret ≠ BT_GETOPT_END)
    (hpresent : 0 ≤ ret → ∃ arg code, wr.arg i = .ok arg ∧ wr.Present arg.bytes code ∧
      ret = code.toNat) : Call.Law wr ⟨i, ret, none, i + 1⟩ :=
  ⟨Or.inl ⟨rfl, Or.inl rfl, by simpa using hnon⟩, hpresent, hend⟩

/-- The law of a call that reports an error. -/
theorem Call.law_neg {i ret : Int} (hneg : ret < 0) (hnon : ret ≠ BT_GETOPT_NON_OPT)
    (hend : ret ≠ BT_GETOPT_END) : Call.Law wr ⟨i, ret, none, i + 1⟩ :=
  law_none hnon hend fun hge => absurd hge (Int.not_le.mpr hneg)

/-- A call at an option that takes the next argument as its value, if that is one. -/
theorem bare_law (hok : wr.Ok) (hlt : wr.curIdx < wr.argc) {arg : CStr} {code : UInt8}
    {required : Bool} (harg : wr.arg wr.curIdx = .ok arg) (hpresent : wr.Present arg.bytes code)
    {ret : Int} (hrun : (answer wr.curIdx wr (.bare code required)).map bump = .ok (ret, wr')) :
    (callOf wr ret wr').Law wr ∧ wr.Same wr' ∧ wr'.curIdx ≤ wr.argc := by
  have hthere : ∃ arg' code', wr.arg wr.curIdx = .ok arg' ∧ wr.Present arg'.bytes code' ∧
      (code.toNat : Int) = code'.toNat := ⟨arg, code, harg, hpresent, rfl⟩
  obtain ⟨next, hnext, ⟨-, rfl, rfl⟩ | ⟨hdash, rfl, rfl⟩⟩ := answer_bare hrun
  · -- the next argument looks like an option
    refine ⟨?_, wr.same_moved _ _, hlt⟩
    cases required with
    | true =>
      exact Call.law_neg (show BT_GETOPT_MISSING_ARG < 0 by decide)
        (show BT_GETOPT_MISSING_ARG ≠ BT_GETOPT_NON_OPT by decide)
        (show BT_GETOPT_MISSING_ARG ≠ BT_GETOPT_END by decide)
    | false => exact Call.law_none (code_ne code).1 (code_ne code).2 fun _ => hthere
  · -- the next argument is the value
    have hin := lt_argc_of_arg hok hnext
    refine ⟨⟨Or.inr ⟨?_, rfl, ?_, next, hnext, hdash⟩, fun _ => hthere, (code_ne code).2⟩,
      wr.same_moved _ _, ?_⟩
    · show wr.curIdx + 1 + 1 = wr.curIdx + 2
      omega
    · exact Int.natCast_nonneg _
    · show wr.curIdx + 1 + 1 ≤ wr.argc
      omega

/-- The step lemma: what a call at an argument does when it does not fault. -/
theorem btGetopt_law (hok : wr.Ok) (hreq : wr.ReqArgs) (h0 : 0 ≤ wr.curIdx)
    (hlt : wr.curIdx < wr.argc) {ret : Int} (hrun : btGetopt wr = .ok (ret, wr')) :
    (callOf wr ret wr').Law wr ∧ wr.Same wr' ∧ wr'.curIdx ≤ wr.argc := by
  obtain ⟨arg, harg, -⟩ := exists_arg hok h0 hlt
  rw [btGetopt_eq hok.longOpt hlt harg] at hrun
  rcases kind_law hreq arg.bytes with (hkind | hkind) | ⟨code, hpresent, hkind⟩
  · -- not an option: the argument itself is reported
    rw [hkind] at hrun
    cases hrun
    have hneg : ¬(0 : Int) ≤ BT_GETOPT_NON_OPT := by decide
    exact ⟨⟨Or.inl ⟨rfl, Or.inr (Or.inl rfl), iff_of_true rfl rfl⟩, fun hge => absurd hge hneg,
      show BT_GETOPT_NON_OPT ≠ BT_GETOPT_END by decide⟩, wr.same_moved _ _, hlt⟩
  · rw [hkind] at hrun
    cases hrun
    exact ⟨Call.law_neg (show BT_GETOPT_UNKNOWN_OPT < 0 by decide)
      (show BT_GETOPT_UNKNOWN_OPT ≠ BT_GETOPT_NON_OPT by decide)
      (show BT_GETOPT_UNKNOWN_OPT ≠ BT_GETOPT_END by decide), wr.same_moved _ _, hlt⟩
  · have hthere : ∃ arg' code', wr.arg wr.curIdx = .ok arg' ∧ wr.Present arg'.bytes code' ∧
        (code.toNat : Int) = code'.toNat := ⟨arg, code, harg, hpresent, rfl⟩
    rcases hkind with hkind | ⟨required, hkind⟩ | ⟨off, hkind, hpos, hoff⟩
    · rw [hkind] at hrun
      cases hrun
      exact ⟨Call.law_none (code_ne code).1 (code_ne code).2 fun _ => hthere,
        wr.same_moved _ _, hlt⟩
    · rw [hkind] at hrun
      exact bare_law hok hlt harg hpresent hrun
    · -- the value is inside the argument, behind its first byte
      rw [hkind] at hrun
      cases hrun
      have hne : ¬some (ArgPtr.mk wr.curIdx off) = some ⟨wr.curIdx, 0⟩ := by
        intro h
        cases h
        omega
      exact ⟨⟨Or.inl ⟨rfl, Or.inr (Or.inr ⟨off, arg, rfl, hpos, harg, hoff⟩),
        iff_of_false hne (code_ne code).1⟩, fun _ => hthere, (code_ne code).2⟩,
        wr.same_moved _ _, hlt⟩

/-! ### Runs -/

/-- The law of a call behind the last argument. -/
def Call.End (wr : BtGetoptWr) (c : Call) : Prop :=
  c.idx = wr.argc ∧ c.ret = BT_GETOPT_END ∧ c.retval = none ∧ c.next = c.idx

theorem BtGetoptWr.Same.end_iff (h : wr.Same wr') (c : Call) : c.End wr' ↔ c.End wr := by
  unfold Call.End
  rw [h.argc]

theorem BtGetoptWr.Same.trans {wr'' : BtGetoptWr} (h : wr.Same wr') (h' : wr'.Same wr'') :
    wr.Same wr'' :=
  ⟨h'.argc.trans h.argc, h'.argv.trans h.argv, h'.shortOpt.trans h.shortOpt,
    h'.longOpt.trans h.longOpt⟩

theorem BtGetoptWr.Same.ok (h : wr.Same wr') (hok : wr.Ok) : wr'.Ok :=
  ⟨by rw [h.argc, h.argv]; exact hok.argc_eq, by rw [h.longOpt]; exact hok.longOpt⟩

theorem BtGetoptWr.Same.reqArgs (h : wr.Same wr') (hreq : wr.ReqArgs) : wr'.ReqArgs := by
  unfold BtGetoptWr.ReqArgs
  rw [h.longOpt]
  exact hreq

theorem BtGetoptWr.Same.present {arg : List UInt8} {code : UInt8} (h : wr.Same wr')
    (hp : wr'.Present arg code) : wr.Present arg code := by
  cases hp with
  | long hlong hmem hnames => exact .long (h.longOpt.symm.trans hlong) hmem hnames
  | short hshort hmem hne => exact .short (h.shortOpt.symm.trans hshort) hmem hne

theorem BtGetoptWr.Same.law {c : Call} (h : wr.Same wr') (hc : c.Law wr') : c.Law wr := by
  have harg : ∀ i, wr'.arg i = wr.arg i := by
    intro i
    unfold BtGetoptWr.arg
    rw [h.argv]
  refine ⟨?_, ?_, hc.ne_end⟩
  · have hmoves := hc.moves
    rwa [harg, harg] at hmoves
  · intro hret
    obtain ⟨arg, code, hget, hpresent, hcode⟩ := hc.present hret
    exact ⟨arg, code, (harg _).symm.trans hget, h.present hpresent, hcode⟩

theorem Call.Law.lt_next {c : Call} (h : c.Law wr) : c.idx < c.next := by
  rcases h.moves with ⟨hnext, -⟩ | ⟨hnext, -⟩
  · omega
  · omega

theorem between_self (a : Int) : between a a = [] := by simp [between]

theorem between_append {a b c : Int} (hab : a ≤ b) (hbc : b ≤ c) :
    between a b ++ between b c = between a c := by
  obtain ⟨m, rfl⟩ := Int.le.dest hab
  obtain ⟨n, rfl⟩ := Int.le.dest hbc
  have hm : (a + m - a).toNat = m := by omega
  have hn : (a + m + n - (a + m)).toNat = n := by omega
  have hmn : (a + m + n - a).toNat = m + n := by omega
  unfold between
  rw [hm, hn, hmn, List.range_add, List.map_append, List.map_map]
  refine congrArg _ (List.map_congr_left fun k _ => ?_)
  show a + m + (k : Int) = a + ((m + k : ℕ) : Int)
  omega

/-- `calls` led from `wr` to `wr'` and consumed the arguments on the way. -/
structure Consumed (wr : BtGetoptWr) (calls : List Call) (wr' : BtGetoptWr) : Prop where
  same : wr.Same wr'
  laws : ∀ c ∈ calls, (c.idx < wr.argc ∧ c.Law wr) ∨ c.End wr
  indices : calls.flatMap Call.indices = between wr.curIdx wr'.curIdx
  le_next : wr.curIdx ≤ wr'.curIdx
  le_argc : wr'.curIdx ≤ wr.argc
  /-- Every call advances until the arguments are used up. -/
  ends : ∀ (k : ℕ) c, calls[k]? = some c → wr.argc ≤ wr.curIdx + k → c.End wr
  done : wr.argc ≤ wr.curIdx + calls.length → wr'.curIdx = wr.argc
  stays : calls.Pairwise fun c c' => c.End wr → c'.End wr

/-- One call, then the rest of a run. -/
theorem Consumed.cons {wr₁ : BtGetoptWr} {c : Call} {calls : List Call} (hsame : wr.Same wr₁)
    (hidx : c.idx = wr.curIdx) (hnext : c.next = wr₁.curIdx) (hle : wr.curIdx ≤ wr₁.curIdx)
    (hc : (c.idx < wr.argc ∧ c.Law wr) ∨ c.End wr) (h : Consumed wr₁ calls wr') :
    Consumed wr (c :: calls) wr' := by
  have hargc := hsame.argc
  -- an advance by at least one, unless the arguments are used up
  have hadvance : wr.argc ≤ wr.curIdx ∨ wr.curIdx + 1 ≤ wr₁.curIdx := by
    rcases hc with ⟨-, hlaw⟩ | ⟨hargc', -⟩
    · have := hlaw.lt_next
      omega
    · omega
  have hlater : ∀ (k : ℕ) c', calls[k]? = some c' → wr.argc ≤ wr.curIdx + (k + 1) → c'.End wr := by
    intro k c' hk hle'
    exact (hsame.end_iff c').mp (h.ends k c' hk (by omega))
  refine ⟨hsame.trans h.same, ?_, ?_, Int.le_trans hle h.le_next, hargc ▸ h.le_argc, ?_, ?_, ?_⟩
  · intro c' hc'
    rcases List.mem_cons.mp hc' with rfl | hc'
    · exact hc
    · rcases h.laws c' hc' with ⟨hlt, hlaw⟩ | hlaw
      · exact Or.inl ⟨hargc ▸ hlt, hsame.law hlaw⟩
      · exact Or.inr ((hsame.end_iff c').mp hlaw)
  · rw [List.flatMap_cons, h.indices, Call.indices, hidx, hnext]
    exact between_append hle h.le_next
  · intro k c' hk hle'
    cases k with
    | zero =>
      obtain rfl : c = c' := Option.some.inj hk
      rcases hc with ⟨hlt, -⟩ | hc
      · omega
      · exact hc
    | succ k => exact hlater k c' hk (by omega)
  · intro hle'
    rw [List.length_cons] at hle'
    have := h.done (by omega)
    omega
  · refine List.pairwise_cons.mpr ⟨?_, ?_⟩
    · intro c' hc' hcend
      obtain ⟨k, hk⟩ := List.getElem?_of_mem hc'
      refine hlater k c' hk ?_
      have := hcend.1
      omega
    · refine h.stays.imp fun {a b} hab ha => ?_
      exact (hsame.end_iff b).mp (hab ((hsame.end_iff a).mpr ha))

theorem getoptMachine_step_inv {c : Call} (h : getoptMachine.step wr () = .ok (c, wr')) :
    ∃ ret, btGetopt wr = .ok (ret, wr') ∧ c = callOf wr ret wr' := by
  simp only [getoptMachine, bind, Except.bind] at h
  cases hrun : btGetopt wr with
  | error e =>
    rw [hrun] at h
    cases h
  | ok p =>
    rw [hrun] at h
    cases h
    exact ⟨p.1, rfl, rfl⟩

/-- The run lemma, from any index on. -/
theorem run_consumed (hok : wr.Ok) (hreq : wr.ReqArgs) (h0 : 0 ≤ wr.curIdx)
    (hle : wr.curIdx ≤ wr.argc) {n : ℕ} {calls : List Call}
    (hrun : getoptMachine.run wr (List.replicate n ()) = .ok (calls, wr')) :
    Consumed wr calls wr' := by
  induction n generalizing wr calls with
  | zero =>
    cases hrun
    exact ⟨BtGetoptWr.same_moved _ _ _, by simp, (between_self _).symm, Int.le_refl _, hle, by simp,
      fun h => by simp at h; omega, List.Pairwise.nil⟩
  | succ n ih =>
    obtain ⟨c, wr₁, calls, hstep, hrest, rfl⟩ := Machine.run_cons_inv hrun
    obtain ⟨ret, hcall, rfl⟩ := getoptMachine_step_inv hstep
    by_cases hlt : wr.curIdx < wr.argc
    · obtain ⟨hlaw, hsame, hin⟩ := btGetopt_law hok hreq h0 hlt hcall
      have hnext : wr.curIdx < wr₁.curIdx := hlaw.lt_next
      exact (ih (hsame.ok hok) (hsame.reqArgs hreq) (by omega) (by rw [hsame.argc]; exact hin)
        hrest).cons hsame rfl rfl (Int.le_of_lt hnext) (Or.inl ⟨hlt, hlaw⟩)
    · -- the arguments are used up: nothing moves any more
      rw [btGetopt_end (by omega)] at hcall
      cases hcall
      have hsame := wr.same_moved none wr.curIdx
      refine (ih (hsame.ok hok) (hsame.reqArgs hreq) h0 hle hrest).cons hsame rfl rfl
        (Int.le_refl _) (Or.inr ⟨?_, rfl, rfl, rfl⟩)
      show wr.curIdx = wr.argc
      omega

/-- A run of calls from `cur_idx = 0` on that does not fault.  Each call obeys its law, the calls
report the arguments up to `cur_idx` once each and in order, `cur_idx` does not pass `argc`, after
`argc` calls the answer is `BT_GETOPT_END`, and once it is it remains so. -/
theorem getopt_consumes (hok : wr.Ok) (hreq : wr.ReqArgs) (h0 : wr.curIdx = 0) {n : ℕ}
    {calls : List Call}
    (hrun : getoptMachine.run wr (List.replicate n ()) = .ok (calls, wr')) :
    (∀ c ∈ calls, (c.idx < wr.argc ∧ c.Law wr) ∨ c.End wr) ∧
    calls.flatMap Call.indices = (List.range wr'.curIdx.toNat).map Int.ofNat ∧
    wr'.curIdx ≤ wr.argc ∧ (wr.argc ≤ n → wr'.curIdx = wr.argc) ∧
    (∀ (k : ℕ) c, calls[k]? = some c → wr.argc ≤ k → c.End wr) ∧
    calls.Pairwise fun c c' => c.End wr → c'.End wr := by
  have hargc : 0 ≤ wr.argc := by
    rw [hok.argc_eq]
    exact Int.natCast_nonneg _
  have h := run_consumed hok hreq (by omega) (by omega) hrun
  have hlen : calls.length = n := by
    rw [Machine.length_answers hrun, List.length_replicate]
  refine ⟨h.laws, ?_, h.le_argc, fun hn => h.done (by omega), ?_, h.stays⟩
  · -- the calls start at index 0, so what they have consumed is all up to `cur_idx`
    rw [h.indices, h0, between, Int.sub_zero]
    exact List.map_congr_left fun k _ => Int.zero_add _
  · intro k c hk hle
    exact h.ends k c hk (by omega)

/-- `--o v v`. -/
def valueWr : BtGetoptWr := requiredWr [requiredOpt, optValue, optValue]

theorem getopt_consumes_required : ∃ calls wr',
    getoptMachine.run valueWr (List.replicate 3 ()) = .ok (calls, wr') ∧
    (∀ c ∈ calls, (c.idx < valueWr.argc ∧ c.Law valueWr) ∨ c.End valueWr) ∧
    calls.flatMap Call.indices = (List.range wr'.curIdx.toNat).map Int.ofNat ∧
    wr'.curIdx ≤ valueWr.argc ∧ (valueWr.argc ≤ (3 : ℕ) → wr'.curIdx = valueWr.argc) ∧
    (∀ (k : ℕ) c, calls[k]? = some c → valueWr.argc ≤ k → c.End valueWr) ∧
    calls.Pairwise fun c c' => c.End valueWr → c'.End valueWr := by
  have hreq : valueWr.ReqArgs := by
    rintro _ ⟨⟩
    decide
  obtain ⟨calls, wr', hrun⟩ : ∃ calls wr',
      getoptMachine.run valueWr (List.replicate 3 ()) = .ok (calls, wr') := ⟨_, _, rfl⟩
  exact ⟨calls, wr', hrun, getopt_consumes (requiredWr_ok _) hreq rfl hrun⟩

end Bluetea.Getopt
