import Bluetea.Arena.Equiv.Exact
import Bluetea.Machine.Budget

/-!
# The arena is an account

Whatever is called after a successful `ar_init`, the answers are those of an account that starts with the
size of the buffer: each call takes the rounded size of what it needs, if that is left, and nothing
otherwise (`arena_budget`).  No room is lost to the order or the kind of the calls.
-/

namespace Bluetea.Arena

/-- What a call that needs `len` bytes asks for, if the length could be found. -/
def asksLen : Except Fault UInt64 → Budget.Req
  | .ok len => .take (roundUp (len.toNat + 1))
  | .error _ => .refuse

/-- What a call asks of the account. -/
def asks (w : ArWorld) : ArOp → Budget.Req
  | .init arBuf size => if (arInit w.st arBuf size).1 = 0 then .renew size.toNat else .refuse
  | .alloc len => .take (roundUp len.toNat)
  | .strdup str => asksLen (w.st.mem.strlen str)
  | .strndup str inlen => asksLen (w.st.mem.strnlen str inlen)

/-- A call that does not start afresh. -/
def ArOp.NoInit : ArOp → Prop
  | init _ _ => False
  | _ => True

/-- An initialised arena with `free` bytes left. -/
structure ArWorld.Account (w : ArWorld) (free : ℕ) : Prop where
  inv : w.Inv
  size_ne_zero : w.st.arSize ≠ 0
  capacity : (arCapacity w.st).toNat = free

/-- The answer of a call and that of the account. -/
def Granted (r : ArRes) (granted : Bool) : Prop := ¬r.Failed ↔ granted = true

variable {w : ArWorld} {s : ArState} {free : ℕ}

/-! ### One call -/

theorem ArWorld.Account.booked (h : w.Account free) : w.st.Booked :=
  ⟨⟨w.blocks, h.inv⟩, h.size_ne_zero⟩

/-- The capacity left tells whether a request was granted. -/
theorem Exact.account {len : UInt64} {p : Addr} {s' : ArState} (h : Exact s len p s') :
    Granted (.ptr p) (Budget.step (arCapacity s).toNat (.take (roundUp len.toNat))).1 ∧
    (arCapacity s').toNat = (Budget.step (arCapacity s).toNat (.take (roundUp len.toNat))).2 := by
  by_cases hp : p = 0
  · -- what does not fit does not fit when it is rounded up
    have hfull : ¬len ≤ arCapacity s := fun hle => h.some_iff.mpr hle hp
    have hround := le_roundUp len.toNat
    rw [UInt64.le_iff_toNat_le] at hfull
    obtain ⟨-, -, hsize, hused⟩ := h.failed hp
    rw [Budget.step_take_of_lt (by omega)]
    constructor
    · exact iff_of_false (fun hne => hne hp) Bool.false_ne_true
    · show (s'.arSize - s'.arUsed).toNat = _
      rw [hsize, hused]
      rfl
  · obtain ⟨htaken, -⟩ := h.taken hp
    rw [Budget.step_take_of_le (by omega)]
    constructor
    · exact iff_of_true hp rfl
    · dsimp only
      omega

/-- A copy takes what an allocation takes. -/
theorem arCopy_alloc {str p : Addr} {len : UInt64} {s' : ArState}
    (h : arCopy s str len = .ok (p, s')) :
    (arAlloc s (len + 1)).1 = p ∧ arCapacity (arAlloc s (len + 1)).2 = arCapacity s' := by
  unfold arCopy at h
  unfold arAlloc
  cases halloc : internalArAlloc s (len + 1) with
  | mk ret s₁ =>
    rw [halloc] at h
    dsimp only at h ⊢
    by_cases hret : ret = 0
    · rw [if_pos hret] at h
      cases h
      exact ⟨hret, rfl⟩
    · rw [if_neg hret] at h
      -- the two writes leave the counters alone
      cases hstore : s₁.mem.store (ret + len) 0 with
      | error e =>
        rw [hstore] at h
        cases h
      | ok m₁ =>
        rw [hstore] at h
        simp only [bind, Except.bind] at h
        cases hcopy : m₁.memcpy ret str len with
        | error e =>
          rw [hcopy] at h
          cases h
        | ok m₂ =>
          rw [hcopy] at h
          cases h
          exact ⟨rfl, rfl⟩

/-- The step lemma for a copy of `k` bytes. -/
theorem ArWorld.Account.copy (h : w.Account free) {str p : Addr} {k : ℕ} (hk : k + 1 ≤ maxLen)
    {s' : ArState} (hcopy : arCopy w.st str (UInt64.ofNat k) = .ok (p, s')) :
    Granted (.ptr p) (Budget.step free (asksLen (.ok (UInt64.ofNat k)))).1 ∧
    (arCapacity s').toNat = (Budget.step free (asksLen (.ok (UInt64.ofNat k)))).2 := by
  have hmax : maxLen = 2 ^ 64 - 16 := by decide
  have hofNat : (UInt64.ofNat k).toNat = k := by
    rw [UInt64.toNat_ofNat']
    exact Nat.mod_eq_of_lt (show k < 2 ^ 64 by omega)
  -- the request is for the terminator as well
  have hlen : (UInt64.ofNat k + 1).toNat = k + 1 := by
    rw [UInt64.toNat_add, hofNat]
    exact Nat.mod_eq_of_lt (show k + 1 < 2 ^ 64 by omega)
  obtain ⟨hp, hcap⟩ := arCopy_alloc hcopy
  have hexact : w.st.ExactAt (UInt64.ofNat k + 1) := h.booked.exactAt (hlen.trans_le hk)
  obtain ⟨hgranted, hleft⟩ := hexact.account
  rw [hlen, hp, h.capacity] at hgranted
  rw [hlen, hcap, h.capacity] at hleft
  rw [asksLen, hofNat]
  exact ⟨hgranted, hleft⟩

/-- **The step lemma**: a call agrees with the account. -/
theorem exec_account (h : w.Account free) {op : ArOp} (hpre : Owed w op) :
    ∃ r w', exec w op = .ok (r, w') ∧ Granted r (Budget.step free (asks w op)).1 ∧
      w'.Account (Budget.step free (asks w op)).2 := by
  have hmax : maxLen = 2 ^ 64 - 16 := by decide
  have hsize : UInt64.size = 2 ^ 64 := rfl
  obtain ⟨r, w', hexec, hstepped⟩ := exec_inv h.inv hpre
  have hne := hstepped.size_ne_zero h.size_ne_zero
  suffices hcap : Granted r (Budget.step free (asks w op)).1 ∧
      (arCapacity w'.st).toNat = (Budget.step free (asks w op)).2 from
    ⟨r, w', hexec, hcap.1, hstepped.inv, hne, hcap.2⟩
  cases op with
  | init arBuf size =>
    rcases arInit_cases w.st arBuf size with hrun | ⟨hrun, -⟩
    · have hcode : (-EINVAL : Int) ≠ 0 := by decide
      simp only [exec, asks, hrun, if_neg hcode] at hexec ⊢
      cases hexec
      exact ⟨iff_of_false (fun hnot => hnot hcode) Bool.false_ne_true, h.capacity⟩
    · simp only [exec, asks, hrun, if_true] at hexec ⊢
      cases hexec
      refine ⟨iff_of_true (fun hfailed => hfailed rfl) rfl, ?_⟩
      -- a new buffer, of which nothing is used
      show (size - 0).toNat = size.toNat
      rw [UInt64.sub_zero]
  | alloc len =>
    cases hexec
    have hexact : w.st.ExactAt len := h.booked.exactAt hpre
    obtain ⟨hgranted, hleft⟩ := hexact.account
    rw [h.capacity] at hgranted hleft
    exact ⟨hgranted, hleft⟩
  | strdup str =>
    obtain ⟨k, hscan, hk⟩ := hpre
    have hlen := Mem.strlen_eq hscan (by omega)
    obtain ⟨p, s', hcopy, -⟩ := arCopy_spec h.inv hk fun i hi => (hscan.before i hi).1
    simp only [exec, arStrdup, hlen, hcopy, bind, Except.bind] at hexec
    cases hexec
    -- the account is asked for the length that the scan has found, and the terminator
    rw [asks, hlen]
    exact h.copy hk hcopy
  | strndup str inlen =>
    obtain ⟨k, hscan, hk⟩ := hpre
    have hlen := Mem.strnlen_eq hscan
    obtain ⟨p, s', hcopy, -⟩ := arCopy_spec h.inv hk fun i hi => (hscan.before i hi).1
    simp only [exec, arStrndup, hlen, hcopy, bind, Except.bind] at hexec
    cases hexec
    rw [asks, hlen]
    exact h.copy hk hcopy

/-! ### Runs -/

/-- A correct call asks for a size, but for `ar_init`. -/
theorem asks_isTake {op : ArOp} (hop : op.NoInit) (hpre : Owed w op) : (asks w op).IsTake := by
  have hmax : maxLen = 2 ^ 64 - 16 := by decide
  have hsize : UInt64.size = 2 ^ 64 := rfl
  cases op with
  | init arBuf size => exact hop.elim
  | alloc len => trivial
  | strdup str =>
    obtain ⟨k, hscan, hk⟩ := hpre
    rw [asks, Mem.strlen_eq hscan (by omega)]
    trivial
  | strndup str inlen =>
    obtain ⟨k, hscan, -⟩ := hpre
    rw [asks, Mem.strnlen_eq hscan]
    trivial

theorem granted_all {rs : List ArRes} {bs : List Bool} (h : List.Forall₂ Granted rs bs) :
    (∀ r ∈ rs, ¬r.Failed) ↔ ∀ b ∈ bs, b = true := by
  induction h with
  | nil =>
    apply iff_of_true
    · exact fun r hr => absurd hr List.not_mem_nil
    · exact fun b hb => absurd hb List.not_mem_nil
  | cons hgranted _ ih =>
    rw [List.forall_mem_cons, List.forall_mem_cons, ih]
    exact and_congr_left' hgranted

theorem account_arInit {arBuf size : UInt64} (hinit : (arInit s arBuf size).1 = 0)
    (hbuf : s.mem.Buffer arBuf size) :
    (ArWorld.mk (arInit s arBuf size).2 []).Account size.toNat := by
  rcases arInit_cases s arBuf size with hrun | ⟨hrun, hne, hsize, halign⟩
  · rw [hrun] at hinit
    exact absurd hinit (show (-EINVAL : Int) ≠ 0 by decide)
  · rw [hrun]
    refine ⟨⟨hsize, Nat.zero_le _, rfl, halign, Or.inr hbuf⟩, hne, ?_⟩
    show (size - 0).toNat = size.toNat
    rw [UInt64.sub_zero]

/-- **Every run is that of an account**: the calls that succeed are those that the account grants, and
the capacity is what it has left. -/
theorem arena_budget {arBuf size : UInt64} (hinit : (arInit s arBuf size).1 = 0)
    (hbuf : s.mem.Buffer arBuf size) {ops : List ArOp}
    (hops : arMachine.Admissible ⟨(arInit s arBuf size).2, []⟩ ops) :
    ∃ rs w, arMachine.run ⟨(arInit s arBuf size).2, []⟩ ops = .ok (rs, w) ∧
      List.Forall₂ Granted rs (Machine.answers Budget.step size.toNat
        (arMachine.observed asks ⟨(arInit s arBuf size).2, []⟩ ops)).1 ∧
      (arCapacity w.st).toNat = (Machine.answers Budget.step size.toNat
        (arMachine.observed asks ⟨(arInit s arBuf size).2, []⟩ ops)).2 ∧
      ((∀ op ∈ ops, op.NoInit) → ((∀ r ∈ rs, ¬r.Failed) ↔
        ((arMachine.observed asks ⟨(arInit s arBuf size).2, []⟩ ops).map Budget.Req.size).sum
          ≤ size.toNat)) := by
  -- one call of the arena is one request to the account, and both answer alike
  have hstep : ∀ w free op, w.Account free → arMachine.Pre w op →
      ∃ r w', arMachine.step w op = .ok (r, w') ∧
        Granted r (Budget.step free (asks w op)).1 ∧ w'.Account (Budget.step free (asks w op)).2 :=
    fun _ _ _ h hpre => exec_account h hpre
  obtain ⟨rs, w, hrun, hgranted, haccount⟩ :=
    Machine.run_simulates_observed hstep (account_arInit hinit hbuf) hops
  refine ⟨rs, w, hrun, hgranted, haccount.capacity, fun hnoInit => ?_⟩
  rw [granted_all hgranted, Budget.answers_take_iff]
  exact Machine.forall_mem_observed (fun _ op hop hpre => asks_isTake (hnoInit op hop) hpre) hops

/-- A block, a string too long for what is left, and the start of it. -/
def accountOps : List ArOp := [.alloc 0x11, .strdup 0x20df, .strndup 0x20df 4]

theorem arena_budget_sample :
    ∃ rs w, arMachine.run ⟨(arInit ⟨0, 0, 0, sampleMem⟩ 0x1000 0x40).2, []⟩ accountOps
        = .ok (rs, w) ∧
      List.Forall₂ Granted rs (Machine.answers Budget.step 0x40
        (arMachine.observed asks ⟨(arInit ⟨0, 0, 0, sampleMem⟩ 0x1000 0x40).2, []⟩ accountOps)).1 ∧
      (arCapacity w.st).toNat = (Machine.answers Budget.step 0x40
        (arMachine.observed asks ⟨(arInit ⟨0, 0, 0, sampleMem⟩ 0x1000 0x40).2, []⟩ accountOps)).2 ∧
      ((∀ op ∈ accountOps, op.NoInit) → ((∀ r ∈ rs, ¬r.Failed) ↔
        ((arMachine.observed asks ⟨(arInit ⟨0, 0, 0, sampleMem⟩ 0x1000 0x40).2, []⟩
          accountOps).map Budget.Req.size).sum ≤ 0x40)) := by
  apply arena_budget (by decide) sampleMem_buffer
  refine Machine.admissible_cons (show _ ≤ _ by decide) rfl <|
    Machine.admissible_cons ?_ rfl <| Machine.admissible_cons ?_ rfl trivial
  · exact ⟨33, ⟨by decide, by decide, fun _ => by decide⟩, by decide⟩
  · exact ⟨4, ⟨by decide, by decide, fun h => absurd h (by decide)⟩, by decide⟩

end Bluetea.Arena
