import Bluetea.Arena.Equiv.Safety

/-!
# Which request sizes `ar_alloc` gets right

The rounding of `internal_ar_alloc` is done modulo the word size.  It is exact up to
`SIZE_MAX - 15`; for the fifteen sizes above it the rounded size is `0`, so the request succeeds
whatever room there is and takes nothing.

Programs may ask for any size here (`anyMachine`).  A request above `SIZE_MAX - 15` does not
change the state, so the state is always one that a program with a book of blocks could be in
(`Booked`), and the facts about those programs apply.
-/

namespace Bluetea.Arena

/-- The caller's obligations, but for the size that is asked for. -/
def OwedAny (w : ArWorld) : ArOp → Prop
  | .alloc _ => True
  | op => Owed w op

/-- The arena as seen by a program that asks for any size. -/
def anyMachine : Machine ArWorld ArOp ArRes Fault := { arMachine with Pre := OwedAny }

/-- A request of `len` bytes in `s` is answered by `p`, and leads to `s'`, as exact arithmetic has
it. -/
structure Exact (s : ArState) (len : UInt64) (p : Addr) (s' : ArState) : Prop where
  some_iff : p ≠ 0 ↔ len ≤ arCapacity s
  taken : p ≠ 0 → (arCapacity s').toNat + roundUp len.toNat = (arCapacity s).toNat ∧
    s.arBuf.toNat ≤ p.toNat ∧ p.toNat + len.toNat ≤ s.arBuf.toNat + s.arSize.toNat
  failed : p = 0 → s'.mem.errno = ENOMEM ∧ s.SameArena s'

/-- `ar_alloc(len)` is exact. -/
def ArState.ExactAt (s : ArState) (len : UInt64) : Prop :=
  Exact s len (arAlloc s len).1 (arAlloc s len).2

/-- An arena that was initialised, with some book of blocks for it. -/
structure ArState.Booked (s : ArState) : Prop where
  book : ∃ blocks, (ArWorld.mk s blocks).Inv
  size_ne_zero : s.arSize ≠ 0

variable {w : ArWorld} {s : ArState} {len : UInt64}

/-! ### One request -/

/-- Above `SIZE_MAX - 15` the rounding wraps to `0`. -/
theorem roundLen_wrap (h : maxLen < len.toNat) : roundLen len = 0 := by
  have hmax : maxLen = 2 ^ 64 - 16 := by decide
  have hlt := len.toNat_lt
  have hfifteen : (0xf : UInt64).toNat = 15 := by decide
  apply UInt64.toNat_inj.mp
  rw [roundLen, Machine.toNat_and_not_mask _ 0xf 4 (by decide), UInt64.toNat_add, hfifteen,
    UInt64.toNat_zero]
  omega

/-- Such a request succeeds and takes nothing. -/
theorem arAlloc_wrap (h : maxLen < len.toNat) : arAlloc s len = (s.arBuf + s.arUsed, s) := by
  have hfits : ¬internalArCapacity s < roundLen len := by
    rw [roundLen_wrap h]
    exact UInt64.not_lt.mpr (UInt64.zero_le ..)
  rw [arAlloc, internalArAlloc, if_neg hfits, roundLen_wrap h, UInt64.add_zero]

theorem ArState.Booked.buffer (h : s.Booked) : s.mem.Buffer s.arBuf s.arSize := by
  obtain ⟨blocks, hinv⟩ := h.book
  exact hinv.buffer.resolve_left h.size_ne_zero

/-- What is handed out of a buffer is not the null pointer. -/
theorem ArState.Booked.next_ne_zero (h : s.Booked) : s.arBuf + s.arUsed ≠ 0 := by
  obtain ⟨blocks, hinv⟩ := h.book
  have hused : s.arUsed.toNat ≤ s.arSize.toNat := hinv.used_le
  have hwrap := h.buffer.no_wrap
  intro hzero
  have hsum : s.arBuf.toNat + s.arUsed.toNat = 0 := by
    rw [← UInt64.toNat_zero, ← hzero, UInt64.toNat_add, Nat.mod_eq_of_lt (by omega)]
  exact h.buffer.ne_null (UInt64.toNat_inj.mp (by rw [UInt64.toNat_zero]; omega))

/-- The capacity test is exact for the sizes whose rounding is. -/
theorem ArState.Booked.exactAt (h : s.Booked) (hlen : len.toNat ≤ maxLen) : s.ExactAt len := by
  obtain ⟨blocks, hinv⟩ := h.book
  have hused : s.arUsed.toNat ≤ s.arSize.toNat := hinv.used_le
  have hwrap := h.buffer.no_wrap
  have hround := roundLen_toNat hlen
  have hle := le_roundUp len.toNat
  have hcap : (internalArCapacity s).toNat = s.arSize.toNat - s.arUsed.toNat :=
    internalArCapacity_toNat hused
  have hsize : 16 ∣ s.arSize.toNat := hinv.size_dvd
  have hdvd : 16 ∣ s.arUsed.toNat := (hinv.stacked.dvd hinv.buf_dvd dvd_roundUp).1
  by_cases hfull : internalArCapacity s < roundLen len
  · have hrun : arAlloc s len = (0, { s with mem := s.mem.setErrno ENOMEM }) := if_pos hfull
    rw [UInt64.lt_iff_toNat_lt, hcap, hround] at hfull
    rw [ArState.ExactAt, hrun]
    refine ⟨iff_of_false (fun hne => hne rfl) ?_, fun hne => absurd rfl hne,
      fun _ => ⟨rfl, rfl, rfl, rfl⟩⟩
    -- what is left is a multiple of 16 that is less than the size rounded up
    rw [UInt64.le_iff_toNat_le, arCapacity, hcap]
    unfold roundUp at hfull
    omega
  · have hrun : arAlloc s len
        = (s.arBuf + s.arUsed, { s with arUsed := s.arUsed + roundLen len }) :=
      if_neg hfull
    rw [UInt64.lt_iff_toNat_lt, hcap, hround] at hfull
    have hp : (s.arBuf + s.arUsed).toNat = s.arBuf.toNat + s.arUsed.toNat := by
      rw [UInt64.toNat_add, Nat.mod_eq_of_lt (by omega)]
    have hbump : (s.arUsed + roundLen len).toNat = s.arUsed.toNat + roundUp len.toNat := by
      rw [UInt64.toNat_add, hround, Nat.mod_eq_of_lt (by omega)]
    rw [ArState.ExactAt, hrun]
    refine ⟨iff_of_true h.next_ne_zero ?_, fun _ => ⟨?_, ?_, ?_⟩,
      fun hzero => absurd hzero h.next_ne_zero⟩
    · rw [UInt64.le_iff_toNat_le, arCapacity, hcap]
      omega
    · show (s.arSize - (s.arUsed + roundLen len)).toNat + _ = (internalArCapacity s).toNat
      rw [UInt64.toNat_sub_of_le _ _ (UInt64.le_iff_toNat_le.mpr (by omega)), hbump, hcap]
      omega
    · dsimp only
      omega
    · dsimp only
      omega

/-- The requests that are answered as in exact arithmetic. -/
theorem ArState.Booked.exactAt_iff (h : s.Booked) : s.ExactAt len ↔ len.toNat ≤ maxLen := by
  obtain ⟨blocks, hinv⟩ := h.book
  have hused : s.arUsed.toNat ≤ s.arSize.toNat := hinv.used_le
  have hcap : (arCapacity s).toNat = s.arSize.toNat - s.arUsed.toNat :=
    internalArCapacity_toNat hused
  have hmax : maxLen = 2 ^ 64 - 16 := by decide
  constructor
  · intro hexact
    by_contra hlen
    have hle : len ≤ arCapacity s := by
      apply hexact.some_iff.mp
      rw [arAlloc_wrap (by omega)]
      exact h.next_ne_zero
    -- the size is a multiple of 16, so there is never that much room
    have hsize : 16 ∣ s.arSize.toNat := hinv.size_dvd
    have hlt := s.arSize.toNat_lt
    have := UInt64.le_iff_toNat_le.mp hle
    omega
  · exact h.exactAt

/-! ### Runs -/

/-- The step lemma: no call faults, and the arena stays one that could have a book. -/
theorem exec_booked (h : w.st.Booked) {op : ArOp} (hpre : OwedAny w op) :
    ∃ r w', exec w op = .ok (r, w') ∧ w'.st.Booked := by
  obtain ⟨blocks, hinv⟩ := h.book
  have hstep : Owed w op → ∃ r w', exec w op = .ok (r, w') ∧ w'.st.Booked := by
    intro howed
    have howed' : Owed ⟨w.st, blocks⟩ op := by
      cases op <;> exact howed
    obtain ⟨r, w', hexec, hstepped⟩ := exec_inv hinv howed'
    obtain ⟨new, hnew, -⟩ := exec_of_book hexec
    exact ⟨r, _, exec_book hnew w.blocks, ⟨w'.blocks, hstepped.inv⟩,
      hstepped.size_ne_zero h.size_ne_zero⟩
  cases op with
  | alloc len =>
    by_cases hlen : len.toNat ≤ maxLen
    · exact hstep hlen
    · -- the book stays as it is, since nothing is taken
      refine ⟨_, _, rfl, ?_⟩
      show (arAlloc w.st len).2.Booked
      rw [arAlloc_wrap (by omega)]
      exact h
  | init arBuf size => exact hstep hpre
  | strdup str => exact hstep hpre
  | strndup str inlen => exact hstep hpre

/-- After a successful `ar_init`, whatever is called then, `ar_alloc` is exact for the sizes up to
`SIZE_MAX - 15` and for no others. -/
theorem arAlloc_exact_iff {arBuf size : UInt64} (hinit : (arInit s arBuf size).1 = 0)
    (hbuf : s.mem.Buffer arBuf size) {ops : List ArOp}
    (hops : anyMachine.Admissible ⟨(arInit s arBuf size).2, []⟩ ops) :
    ∃ rs w, anyMachine.run ⟨(arInit s arBuf size).2, []⟩ ops = .ok (rs, w) ∧
      ∀ len, w.st.ExactAt len ↔ len.toNat ≤ maxLen := by
  have hstart : (arInit s arBuf size).2.Booked := by
    -- an `ar_init` that returns 0 has stored its arguments
    rcases arInit_cases s arBuf size with hrun | ⟨hrun, hne, hsize, halign⟩
    · rw [hrun] at hinit
      exact absurd hinit (show (-EINVAL : Int) ≠ 0 by decide)
    · rw [hrun]
      exact ⟨⟨[], hsize, Nat.zero_le _, rfl, halign, Or.inr hbuf⟩, hne⟩
  have hstep : ∀ (w : ArWorld) (op : ArOp), w.st.Booked → anyMachine.Pre w op →
      ∃ r w', anyMachine.step w op = .ok (r, w') ∧ w'.st.Booked :=
    fun w op h hpre => exec_booked h hpre
  obtain ⟨rs, w, hrun, hbooked⟩ := Machine.run_invariant hstep hstart hops
  exact ⟨rs, w, hrun, fun len => hbooked.exactAt_iff⟩

/-- A block is handed out, and then one of any size. -/
theorem arAlloc_exact_iff_sample :
    ∃ rs w, anyMachine.run ⟨(arInit ⟨0, 0, 0, sampleMem⟩ 0x1000 0x40).2, []⟩
        [.alloc 0x11, .alloc 0xffffffffffffffff] = .ok (rs, w) ∧
      ∀ len, w.st.ExactAt len ↔ len.toNat ≤ maxLen :=
  arAlloc_exact_iff (by decide) sampleMem_buffer
    (Machine.admissible_cons trivial rfl (Machine.admissible_cons trivial rfl trivial))

/-- An arena of 64 bytes grants a request of `SIZE_MAX` bytes. -/
theorem arAlloc_max_succeeds :
    let s := (arInit ⟨0, 0, 0, sampleMem⟩ 0x1000 0x40).2
    (arInit ⟨0, 0, 0, sampleMem⟩ 0x1000 0x40).1 = 0 ∧ sampleMem.Buffer 0x1000 0x40 ∧
      (arAlloc s 0xffffffffffffffff).1 ≠ 0 ∧ ¬(0xffffffffffffffff : UInt64) ≤ arCapacity s ∧
      ¬s.ExactAt 0xffffffffffffffff := by
  have hne : (arAlloc (arInit ⟨0, 0, 0, sampleMem⟩ 0x1000 0x40).2 0xffffffffffffffff).1 ≠ 0 := by
    decide
  have hle : ¬(0xffffffffffffffff : UInt64) ≤
      arCapacity (arInit ⟨0, 0, 0, sampleMem⟩ 0x1000 0x40).2 := by
    decide
  exact ⟨by decide, sampleMem_buffer, hne, hle, fun h => hle (h.some_iff.mp hne)⟩

end Bluetea.Arena
