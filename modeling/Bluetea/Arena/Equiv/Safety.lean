import Bluetea.Arena.Program
import Bluetea.Machine.Memory
import Bluetea.Machine.Bump

/-!
# The arena is safe

The blocks of the caller's book are stacked from the buffer on (`Bump.Stacked`), each taking its
size rounded up to a multiple of 16.  The rounding, the capacity test and the bump agree exactly
as long as no request is so large that the rounding wraps (`internalArAlloc_spec`), so this
survives every call (`ArWorld.Inv`).
-/

namespace Bluetea.Arena

/-- Rounding up to a multiple of 16, in exact arithmetic. -/
def roundUp (n : ℕ) : ℕ := (n + 15) / 16 * 16

theorem le_roundUp (n : ℕ) : n ≤ roundUp n := by
  unfold roundUp
  omega

theorem dvd_roundUp (n : ℕ) : 16 ∣ roundUp n := ⟨(n + 15) / 16, Nat.mul_comm ..⟩

/-- The rounding of the code is exact for the sizes that can be asked for. -/
theorem roundLen_toNat {len : UInt64} (h : len.toNat ≤ maxLen) :
    (roundLen len).toNat = roundUp len.toNat := by
  have hmax : maxLen = 2 ^ 64 - 16 := by decide
  exact Machine.toNat_align_up len 0xf 4 (by decide) (by omega)

/-- The masks of `ar_init` test for multiples of 16. -/
theorem and_mask_eq_zero_iff {x : UInt64} : x &&& 0xf = 0 ↔ 16 ∣ x.toNat := by
  rw [← UInt64.toNat_inj, UInt64.toNat_and]
  have hmask : (0xf : UInt64).toNat = 2 ^ 4 - 1 := by decide
  rw [hmask, Nat.and_two_pow_sub_one_eq_mod, UInt64.toNat_zero, Nat.dvd_iff_mod_eq_zero]

/-- The book in natural numbers. -/
def natBlocks (blocks : List (Addr × UInt64)) : List (ℕ × ℕ) :=
  blocks.map fun b => (b.1.toNat, b.2.toNat)

/-- The invariant of a program. -/
structure ArWorld.Inv (w : ArWorld) : Prop where
  size_dvd : 16 ∣ w.st.arSize.toNat
  used_le : w.st.arUsed.toNat ≤ w.st.arSize.toNat
  stacked : Bump.Stacked roundUp w.st.arBuf.toNat (natBlocks w.blocks) w.st.arUsed.toNat
  buf_dvd : 16 ∣ w.st.arBuf.toNat
  /-- Before the first `ar_init` there is no buffer, and no room. -/
  buffer : w.st.arSize = 0 ∨ w.st.mem.Buffer w.st.arBuf w.st.arSize

/-- `ar_init` rejects its arguments and changes nothing, or takes a size that is not zero, the size
and the buffer multiples of 16. -/
theorem arInit_cases (s : ArState) (arBuf : Addr) (size : UInt64) :
    arInit s arBuf size = (-EINVAL, s) ∨
      arInit s arBuf size = (0, { s with arBuf := arBuf, arSize := size, arUsed := 0 }) ∧
        size ≠ 0 ∧ 16 ∣ size.toNat ∧ 16 ∣ arBuf.toNat := by
  unfold arInit
  by_cases hbad : size = 0 ∨ size &&& 0xf ≠ 0
  · rw [if_pos hbad]
    exact Or.inl rfl
  rw [if_neg hbad]
  by_cases halign : arBuf &&& 0xf ≠ 0
  · exact Or.inl (if_pos halign)
  · have hsize : size &&& 0xf = 0 := by
      by_contra hne
      exact hbad (Or.inr hne)
    exact Or.inr ⟨if_neg halign, fun h0 => hbad (Or.inl h0), and_mask_eq_zero_iff.mp hsize,
      and_mask_eq_zero_iff.mp (not_not.mp halign)⟩

variable {w : ArWorld} {s : ArState} {len : UInt64}

theorem ArWorld.Inv.start (m : Mem) : (ArWorld.start m).Inv :=
  ⟨Nat.dvd_zero 16, Nat.le_refl 0, rfl, Nat.dvd_zero 16, Or.inl rfl⟩

/-! ### Allocation -/

theorem internalArCapacity_toNat (h : s.arUsed.toNat ≤ s.arSize.toNat) :
    (internalArCapacity s).toNat = s.arSize.toNat - s.arUsed.toNat :=
  UInt64.toNat_sub_of_le _ _ (UInt64.le_iff_toNat_le.mpr h)

/-- What an allocation did: nothing, or it took the next bytes. -/
inductive Allocated (s : ArState) (len : UInt64) : Addr → ArState → Prop
  | failed : Allocated s len 0 { s with mem := s.mem.setErrno ENOMEM }
  | taken {p : Addr} {used : UInt64} : p.toNat = s.arBuf.toNat + s.arUsed.toNat →
      used.toNat = s.arUsed.toNat + roundUp len.toNat → used.toNat ≤ s.arSize.toNat →
      Allocated s len p { s with arUsed := used }

theorem Allocated.arSize {p : Addr} {s' : ArState} (h : Allocated s len p s') :
    s'.arSize = s.arSize := by
  cases h <;> rfl

theorem Allocated.byte {p : Addr} {s' : ArState} (h : Allocated s len p s') :
    s'.mem.byte = s.mem.byte := by
  cases h <;> rfl

/-- The test, the rounding and the bump agree. -/
theorem internalArAlloc_spec (hused : s.arUsed.toNat ≤ s.arSize.toNat)
    (hwrap : s.arBuf.toNat + s.arSize.toNat < 2 ^ 64) (hlen : len.toNat ≤ maxLen) :
    Allocated s len (internalArAlloc s len).1 (internalArAlloc s len).2 := by
  have hround := roundLen_toNat hlen
  have hcap := internalArCapacity_toNat hused
  unfold internalArAlloc
  dsimp only
  by_cases hfull : internalArCapacity s < roundLen len
  · rw [if_pos hfull]
    exact .failed
  · rw [if_neg hfull]
    -- what is left has room for the rounded size, so neither sum wraps
    rw [UInt64.lt_iff_toNat_lt, hcap, hround] at hfull
    have hp : (s.arBuf + s.arUsed).toNat = s.arBuf.toNat + s.arUsed.toNat := by
      rw [UInt64.toNat_add, Nat.mod_eq_of_lt (by omega)]
    have hbump : (s.arUsed + roundLen len).toNat = s.arUsed.toNat + roundUp len.toNat := by
      rw [UInt64.toNat_add, hround, Nat.mod_eq_of_lt (by omega)]
    exact .taken hp hbump (by omega)

theorem ArWorld.Inv.no_wrap (h : w.Inv) : w.st.arBuf.toNat + w.st.arSize.toNat < 2 ^ 64 := by
  rcases h.buffer with hsize | hbuf
  · rw [hsize]
    exact w.st.arBuf.toNat_lt
  · exact hbuf.no_wrap

/-- The buffer, the size and the bytes used are as before. -/
def ArState.SameArena (s s' : ArState) : Prop :=
  s'.arBuf = s.arBuf ∧ s'.arSize = s.arSize ∧ s'.arUsed = s.arUsed

/-- Booking an allocation keeps the invariant, and a null pointer means that nothing changed. -/
theorem ArWorld.Inv.allocated (h : w.Inv) {p : Addr} {s' : ArState}
    (ha : Allocated w.st len p s') :
    (ArWorld.mk s' (record p len w.blocks)).Inv ∧ (p = 0 → w.st.SameArena s') := by
  cases ha with
  | failed =>
    -- only `errno` changed
    exact ⟨⟨h.size_dvd, h.used_le, h.stacked, h.buf_dvd, h.buffer.imp id fun hb =>
      ⟨hb.ne_null, hb.no_wrap, hb.writable⟩⟩, fun _ => ⟨rfl, rfl, rfl⟩⟩
  | @taken p used hp hused hle =>
    by_cases h0 : p = 0
    · -- only an arena that was never initialised gives out the null pointer
      subst h0
      have hsize : w.st.arSize = 0 := by
        rcases h.buffer with hsize | hbuf
        · exact hsize
        · refine absurd (UInt64.toNat_inj.mp ?_) hbuf.ne_null
          rw [UInt64.toNat_zero] at hp ⊢
          omega
      have hsame : used = w.st.arUsed := by
        rw [hsize, UInt64.toNat_zero] at hle
        apply UInt64.toNat_inj.mp
        omega
      subst hsame
      exact ⟨h, fun _ => ⟨rfl, rfl, rfl⟩⟩
    · refine ⟨⟨h.size_dvd, hle, ?_, h.buf_dvd, h.buffer⟩, fun hp0 => absurd hp0 h0⟩
      rw [record, if_neg h0]
      show Bump.Stacked roundUp _ ((p.toNat, len.toNat) :: natBlocks w.blocks) _
      rw [hp, hused]
      exact h.stacked.push len.toNat

/-! ### Scanning and copying -/

/-- Two memories with the same permissions. -/
structure Mem.SamePerms (m m' : Mem) : Prop where
  readable : m'.readable = m.readable
  writable : m'.writable = m.writable

theorem Mem.SamePerms.trans {m m' m'' : Mem} (h : m.SamePerms m') (h' : m'.SamePerms m'') :
    m.SamePerms m'' :=
  ⟨h'.readable.trans h.readable, h'.writable.trans h.writable⟩

theorem Mem.store_of_writable {m : Mem} {a : Addr} (h : m.writable a) (b : UInt8) :
    ∃ m', m.store a b = .ok m' ∧ m.SamePerms m' ∧ m'.byte a = b ∧
      ∀ a', a' ≠ a → m'.byte a' = m.byte a' :=
  ⟨_, if_pos h, ⟨rfl, rfl⟩, Function.update_self .., fun _ hne => Function.update_of_ne hne ..⟩

/-- The scan of `strnlen`, from any byte on. -/
theorem Mem.strnlenLoop_eq {m : Mem} {str : Addr} {n k : ℕ} (h : m.Scans str n k) {i rest : ℕ}
    (hi : i ≤ k) (hrest : i + rest = n) : m.strnlenLoop str rest i = .ok k := by
  have hle := h.le
  induction rest generalizing i with
  | zero =>
    obtain rfl : i = k := by omega
    rfl
  | succ rest ih =>
    rw [strnlenLoop, load]
    -- the byte is the terminator, or one in front of it
    by_cases hik : i = k
    · subst hik
      obtain ⟨hread, hzero⟩ := h.stop (by omega)
      simp [hread, hzero, bind, Except.bind, pure, Except.pure]
    · obtain ⟨hread, hne⟩ := h.before i (by omega)
      simp only [hread, ↓reduceIte, bind, Except.bind, hne]
      exact ih (by omega) (by omega)

theorem Mem.strnlen_eq {m : Mem} {str : Addr} {inlen : UInt64} {k : ℕ}
    (h : m.Scans str inlen.toNat k) : m.strnlen str inlen = .ok (UInt64.ofNat k) := by
  rw [strnlen, strnlenLoop_eq h (Nat.zero_le k) (Nat.zero_add _)]
  rfl

theorem Mem.strlen_eq {m : Mem} {str : Addr} {k : ℕ} (h : m.Scans str UInt64.size k)
    (hk : k < UInt64.size) : m.strlen str = .ok (UInt64.ofNat k) := by
  rw [strlen, strnlenLoop_eq h (Nat.zero_le k) (Nat.zero_add _)]
  simp only [bind, Except.bind]
  rw [if_neg (by omega)]
  rfl

theorem toNat_add_ofNat {p : Addr} {i : ℕ} (h : p.toNat + i < 2 ^ 64) :
    (p + UInt64.ofNat i).toNat = p.toNat + i := by
  rw [UInt64.toNat_add, UInt64.toNat_ofNat', Nat.mod_eq_of_lt (a := i) (by omega),
    Nat.mod_eq_of_lt h]

theorem add_ofNat_inj {p : Addr} {i j : ℕ} (hi : i < 2 ^ 64) (hj : j < 2 ^ 64)
    (h : p + UInt64.ofNat i = p + UInt64.ofNat j) : i = j := by
  have hnat := congrArg UInt64.toNat ((UInt64.add_right_inj p).mp h)
  rwa [UInt64.toNat_ofNat', UInt64.toNat_ofNat', Nat.mod_eq_of_lt hi, Nat.mod_eq_of_lt hj] at hnat

/-- `m'` is `m` after the bytes from `i` on, `n` of them, were copied from `src` to `dst`. -/
structure Mem.CopiedTo (dst src : Addr) (i n : ℕ) (m m' : Mem) : Prop where
  perms : m.SamePerms m'
  frame : ∀ a, (∀ j, i ≤ j → j < i + n → a ≠ dst + UInt64.ofNat j) → m'.byte a = m.byte a
  /-- Where source and destination are apart, the destination holds the source. -/
  bytes : i + n ≤ 2 ^ 64 →
    (∀ j j', j < i + n → j' < i + n → src + UInt64.ofNat j ≠ dst + UInt64.ofNat j') →
    ∀ j, i ≤ j → j < i + n → m'.byte (dst + UInt64.ofNat j) = m.byte (src + UInt64.ofNat j)

/-- One byte, then the others. -/
theorem Mem.CopiedTo.cons {dst src : Addr} {i n : ℕ} {m m₁ m' : Mem} (hperms : m.SamePerms m₁)
    (hbyte : m₁.byte (dst + UInt64.ofNat i) = m.byte (src + UInt64.ofNat i))
    (hframe : ∀ a, a ≠ dst + UInt64.ofNat i → m₁.byte a = m.byte a)
    (h : CopiedTo dst src (i + 1) n m₁ m') : CopiedTo dst src i (n + 1) m m' := by
  refine ⟨hperms.trans h.perms, ?_, ?_⟩
  · intro a ha
    rw [h.frame a fun j hj hjn => ha j (by omega) (by omega),
      hframe a (ha i (Nat.le_refl i) (by omega))]
  · intro hn hsep j hj hjn
    by_cases hij : j = i
    · -- no later byte of the destination is this one
      subst hij
      rw [h.frame _ fun j' hj' hjn' heq => ?_, hbyte]
      have := add_ofNat_inj (by omega) (by omega) heq
      omega
    · rw [h.bytes (by omega) (fun j j' hj hj' => hsep j j' (by omega) (by omega)) j (by omega)
        (by omega)]
      exact hframe _ (hsep j i (by omega) (by omega))

/-- Copying readable bytes to writable ones succeeds. -/
theorem Mem.memcpyLoop_ok (dst src : Addr) {n i : ℕ} {m : Mem}
    (hsrc : ∀ j, i ≤ j → j < i + n → m.readable (src + UInt64.ofNat j))
    (hdst : ∀ j, i ≤ j → j < i + n → m.writable (dst + UInt64.ofNat j)) :
    ∃ m', memcpyLoop dst src n i m = .ok m' ∧ CopiedTo dst src i n m m' := by
  induction n generalizing i m with
  | zero =>
    exact ⟨m, rfl, ⟨rfl, rfl⟩, fun _ _ => rfl, fun _ _ j hj hjn => by omega⟩
  | succ n ih =>
    have hread := hsrc i (Nat.le_refl i) (by omega)
    obtain ⟨m₁, hstore, hperms, hbyte, hframe⟩ :=
      store_of_writable (hdst i (Nat.le_refl i) (by omega)) (m.byte (src + UInt64.ofNat i))
    obtain ⟨m', hloop, hcopied⟩ := ih (i := i + 1)
      (fun j hj hjn => by rw [hperms.readable]; exact hsrc j (by omega) (by omega))
      (fun j hj hjn => by rw [hperms.writable]; exact hdst j (by omega) (by omega))
    refine ⟨m', ?_, hcopied.cons hperms hbyte hframe⟩
    rw [memcpyLoop, load, if_pos hread]
    simp only [bind, Except.bind, hstore]
    exact hloop

/-- `m'` is `m` with the `k` bytes at `src` and a terminator at `dst`. -/
structure Mem.Terminated (dst src : Addr) (k : ℕ) (m m' : Mem) : Prop where
  perms : m.SamePerms m'
  frame : ∀ a, (∀ j, j ≤ k → a ≠ dst + UInt64.ofNat j) → m'.byte a = m.byte a
  bytes : (∀ j j', j < k → j' ≤ k → src + UInt64.ofNat j ≠ dst + UInt64.ofNat j') →
    ∀ j, j < k → m'.byte (dst + UInt64.ofNat j) = m.byte (src + UInt64.ofNat j)
  terminator : m'.byte (dst + UInt64.ofNat k) = 0

/-- The terminator is written first, then the bytes in front of it. -/
theorem Mem.terminated_ok (dst src : Addr) {k : ℕ} (hk : k < 2 ^ 64) {m : Mem}
    (hsrc : ∀ j, j < k → m.readable (src + UInt64.ofNat j))
    (hdst : ∀ j, j ≤ k → m.writable (dst + UInt64.ofNat j)) :
    ∃ m₁ m₂, m.store (dst + UInt64.ofNat k) 0 = .ok m₁ ∧
      m₁.memcpy dst src (UInt64.ofNat k) = .ok m₂ ∧ Terminated dst src k m m₂ := by
  have hkn : (UInt64.ofNat k).toNat = k := by
    rw [UInt64.toNat_ofNat']
    exact Nat.mod_eq_of_lt hk
  obtain ⟨m₁, hstore, hperms₁, hbyte₁, hframe₁⟩ := store_of_writable (hdst k (Nat.le_refl k)) 0
  obtain ⟨m₂, hcopy, hcopied⟩ := memcpyLoop_ok dst src (n := k) (i := 0) (m := m₁)
    (fun j _ hj => by rw [hperms₁.readable]; exact hsrc j (by omega))
    (fun j _ hj => by rw [hperms₁.writable]; exact hdst j (by omega))
  refine ⟨m₁, m₂, hstore, by rw [memcpy, hkn, hcopy], hperms₁.trans hcopied.perms, ?_, ?_, ?_⟩
  · intro a ha
    rw [hcopied.frame a fun j _ hj => ha j (by omega)]
    exact hframe₁ a (ha k (Nat.le_refl k))
  · intro hsep j hj
    rw [hcopied.bytes (by omega) (fun j j' hj hj' => hsep j j' (by omega) (by omega)) j
      (Nat.zero_le j) (by omega)]
    exact hframe₁ _ (hsep j k hj (Nat.le_refl k))
  · -- the NUL is written first, and the copy of `k` bytes does not reach it
    rw [hcopied.frame _ fun j _ hj heq => ?_]
    · exact hbyte₁
    · have := add_ofNat_inj (by omega) (by omega) heq
      omega

/-- The bytes of a block in the buffer are writable. -/
theorem Mem.Buffer.writable_of {m : Mem} {arBuf size p : Addr} (h : m.Buffer arBuf size) {i : ℕ}
    (hlo : arBuf.toNat ≤ p.toNat) (hhi : p.toNat + i < arBuf.toNat + size.toNat) :
    m.writable (p + UInt64.ofNat i) := by
  have hwrap := h.no_wrap
  have haddr : p + UInt64.ofNat i = arBuf + UInt64.ofNat (p.toNat - arBuf.toNat + i) := by
    apply UInt64.toNat_inj.mp
    rw [toNat_add_ofNat (by omega), toNat_add_ofNat (by omega)]
    omega
  rw [haddr]
  exact h.writable _ (by omega)

/-- What a copy of `k` bytes at `str` to `p` does to the memory. -/
structure ArState.Copied (s : ArState) (str : Addr) (k : ℕ) (p : Addr) (s' : ArState) : Prop where
  arSize : s'.arSize = s.arSize
  /-- Only bytes of the free part change, and none if there is no block. -/
  frame : ∀ a, s'.mem.byte a ≠ s.mem.byte a → p ≠ 0 ∧ s.Free a
  bytes : p ≠ 0 → (∀ i, i < k → ¬s.Free (str + UInt64.ofNat i)) →
    ∀ i, i < k → s'.mem.byte (p + UInt64.ofNat i) = s.mem.byte (str + UInt64.ofNat i)
  terminator : p ≠ 0 → s'.mem.byte (p + UInt64.ofNat k) = 0

/-- A block of `k + 1` bytes that was handed out lies in the free part of a buffer. -/
theorem ArWorld.Inv.block (h : w.Inv) {p used : Addr} {k : ℕ}
    (hp : p.toNat = w.st.arBuf.toNat + w.st.arUsed.toNat)
    (hused : w.st.arUsed.toNat + (k + 1) ≤ used.toNat) (hle : used.toNat ≤ w.st.arSize.toNat) :
    w.st.mem.Buffer w.st.arBuf w.st.arSize ∧
      (∀ i, i ≤ k → w.st.mem.writable (p + UInt64.ofNat i)) ∧
      ∀ i, i ≤ k → w.st.Free (p + UInt64.ofNat i) := by
  -- there was room, so there is a buffer
  have hbuf : w.st.mem.Buffer w.st.arBuf w.st.arSize := by
    refine h.buffer.resolve_left fun hsize => ?_
    rw [hsize, UInt64.toNat_zero] at hle
    omega
  have hwrap := hbuf.no_wrap
  refine ⟨hbuf, ?_, ?_⟩
  · intro i hi
    exact hbuf.writable_of (by omega) (by omega)
  · intro i hi
    have haddr := toNat_add_ofNat (p := p) (i := i) (by omega)
    exact ⟨by omega, by omega⟩

/-- A copy is an allocation; the bytes it writes lie in the new block. -/
theorem arCopy_spec (h : w.Inv) {str : Addr} {k : ℕ} (hk : k + 1 ≤ maxLen)
    (hsrc : ∀ i, i < k → w.st.mem.readable (str + UInt64.ofNat i)) :
    ∃ p s', arCopy w.st str (UInt64.ofNat k) = .ok (p, s') ∧
      (ArWorld.mk s' (record p (UInt64.ofNat k + 1) w.blocks)).Inv ∧
      (p = 0 → w.st.SameArena s') ∧ w.st.Copied str k p s' := by
  have hmax : maxLen = 2 ^ 64 - 16 := by decide
  have hlen : (UInt64.ofNat k + 1).toNat = k + 1 := by
    rw [UInt64.toNat_add, UInt64.toNat_ofNat', Nat.mod_eq_of_lt (a := k) (by omega)]
    exact Nat.mod_eq_of_lt (show k + 1 < 2 ^ 64 by omega)
  have ha := internalArAlloc_spec h.used_le h.no_wrap (show (UInt64.ofNat k + 1).toNat ≤ maxLen by
    omega)
  unfold arCopy
  cases halloc : internalArAlloc w.st (UInt64.ofNat k + 1) with
  | mk p s =>
    rw [halloc] at ha
    dsimp only at ha ⊢
    obtain ⟨hinv, hsame⟩ := h.allocated ha
    by_cases h0 : p = 0
    · -- nothing but `errno` may have changed
      subst h0
      obtain ⟨-, hsize, -⟩ := hsame rfl
      exact ⟨0, s, rfl, hinv, hsame, hsize, fun a hne => absurd (congrFun ha.byte a) hne,
        fun hne => absurd rfl hne, fun hne => absurd rfl hne⟩
    · rw [if_neg h0]
      cases ha with
      | failed => exact absurd rfl h0
      | @taken _ used hp hused hle =>
        rw [hlen] at hused
        have hround := le_roundUp (k + 1)
        obtain ⟨hbuf, hwritable, hfree⟩ := h.block (k := k) hp (by omega) hle
        obtain ⟨m₁, m₂, hstore, hcopy, hcopied⟩ :=
          Mem.terminated_ok p str (k := k) (by omega) hsrc hwritable
        refine ⟨p, ⟨w.st.arBuf, w.st.arSize, used, m₂⟩, ?_, ?_, fun hp0 => absurd hp0 h0, rfl,
          fun a hne => ⟨h0, ?_⟩, fun _ hsep => hcopied.bytes ?_, fun _ => hcopied.terminator⟩
        · simp only [hstore, hcopy, bind, Except.bind]
          rfl
        · refine ⟨hinv.size_dvd, hinv.used_le, hinv.stacked, hinv.buf_dvd, Or.inr ?_⟩
          exact ⟨hbuf.ne_null, hbuf.no_wrap, by rw [hcopied.perms.writable]; exact hbuf.writable⟩
        · -- a byte that changed is one of those that were written
          by_contra hnot
          exact hne (hcopied.frame a fun j hj haj => hnot (haj ▸ hfree j hj))
        · intro j j' hj hj' heq
          exact hsep j hj (heq ▸ hfree j' hj')

/-! ### Steps -/

/-- What a call of a correct caller does. -/
structure Stepped (w : ArWorld) (r : ArRes) (w' : ArWorld) : Prop where
  inv : w'.Inv
  same : r.Failed → w.st.SameArena w'.st
  size_ne_zero : w.st.arSize ≠ 0 → w'.st.arSize ≠ 0
  /-- Only bytes of the free part change, and none when the call fails. -/
  frame : ∀ a, w'.st.mem.byte a ≠ w.st.mem.byte a → ¬r.Failed ∧ w.st.Free a

theorem ArState.Copied.stepped {w' : ArWorld} {str p : Addr} {k : ℕ}
    (h : w.st.Copied str k p w'.st) (hinv : w'.Inv) (hsame : p = 0 → w.st.SameArena w'.st) :
    Stepped w (.ptr p) w' := by
  refine ⟨hinv, hsame, fun hne => ?_, h.frame⟩
  rw [h.arSize]
  exact hne

/-- The step lemma: a call of a correct caller does not fault. -/
theorem exec_inv (h : w.Inv) {op : ArOp} (hpre : Owed w op) :
    ∃ r w', exec w op = .ok (r, w') ∧ Stepped w r w' := by
  have hmax : maxLen = 2 ^ 64 - 16 := by decide
  have hsize : UInt64.size = 2 ^ 64 := rfl
  cases op with
  | init arBuf size =>
    rcases arInit_cases w.st arBuf size with hrun | ⟨hrun, hne, hsize, halign⟩
    · refine ⟨.code (-EINVAL), w, ?_, h, fun _ => ⟨rfl, rfl, rfl⟩, id, fun _ ha => absurd rfl ha⟩
      simp only [exec, hrun]
      rfl
    · -- a new buffer: nothing is used of it, and the book starts afresh
      have hbuf : w.st.mem.Buffer arBuf size := hpre (by rw [hrun])
      refine ⟨.code 0, ⟨{ w.st with arBuf := arBuf, arSize := size, arUsed := 0 }, []⟩, ?_, ?_,
        fun hne => absurd rfl hne, fun _ => hne, fun _ ha => absurd rfl ha⟩
      · simp only [exec, hrun]
        rfl
      · exact ⟨hsize, Nat.zero_le _, rfl, halign, Or.inr hbuf⟩
  | alloc len =>
    have ha := internalArAlloc_spec h.used_le h.no_wrap hpre
    obtain ⟨hinv, hsame⟩ := h.allocated ha
    refine ⟨_, _, rfl, hinv, hsame, ?_, fun a hne => absurd (congrFun ha.byte a) hne⟩
    show _ → (internalArAlloc w.st len).2.arSize ≠ 0
    rw [ha.arSize]
    exact id
  | strdup str =>
    obtain ⟨k, hscan, hk⟩ := hpre
    have hlen := Mem.strlen_eq hscan (by omega)
    obtain ⟨p, s, hcopy, hinv, hsame, hcopied⟩ :=
      arCopy_spec h hk fun i hi => (hscan.before i hi).1
    refine ⟨.ptr p, _, ?_, hcopied.stepped hinv hsame⟩
    simp only [exec, arStrdup, hlen, hcopy, bind, Except.bind]
    rfl
  | strndup str inlen =>
    obtain ⟨k, hscan, hk⟩ := hpre
    have hlen := Mem.strnlen_eq hscan
    obtain ⟨p, s, hcopy, hinv, hsame, hcopied⟩ :=
      arCopy_spec h hk fun i hi => (hscan.before i hi).1
    refine ⟨.ptr p, _, ?_, hcopied.stepped hinv hsame⟩
    simp only [exec, arStrndup, hlen, hcopy, bind, Except.bind]
    rfl

/-! ### The book -/

/-- The book after a call that handed out the blocks `new`. -/
def rebook (r : ArRes) (new bs : List (Addr × UInt64)) : ArOp → List (Addr × UInt64)
  | .init _ _ => if r = .code 0 then [] else bs
  | _ => new ++ bs

theorem record_append (p : Addr) (len : UInt64) (bs : List (Addr × UInt64)) :
    record p len bs = record p len [] ++ bs := by
  unfold record
  split <;> rfl

/-- The book plays no part in what a call does to the state. -/
theorem exec_map (op : ArOp) (bs : List (Addr × UInt64)) :
    exec ⟨s, bs⟩ op
      -- the model runs on the state alone: the book of the blocks is only written
      = (exec ⟨s, []⟩ op).map fun p => (p.1, ⟨p.2.st, rebook p.1 p.2.blocks bs op⟩) := by
  cases op with
  | init arBuf size =>
    simp [exec, Except.map, rebook]
  | alloc len =>
    simp only [exec, Except.map, rebook]
    rw [record_append]
  | strdup str =>
    simp only [exec, bind, Except.bind]
    cases s.mem.strlen str with
    | error e => rfl
    | ok len =>
      cases arStrdup s str with
      | error e => rfl
      | ok p =>
        dsimp only
        rw [record_append]
        rfl
  | strndup str inlen =>
    simp only [exec, bind, Except.bind]
    cases s.mem.strnlen str inlen with
    | error e => rfl
    | ok len =>
      cases arStrndup s str inlen with
      | error e => rfl
      | ok p =>
        dsimp only
        rw [record_append]
        rfl

theorem exec_book {op : ArOp} {r : ArRes} {s' : ArState} {new : List (Addr × UInt64)}
    (h : exec ⟨s, []⟩ op = .ok (r, ⟨s', new⟩)) (bs : List (Addr × UInt64)) :
    exec ⟨s, bs⟩ op = .ok (r, ⟨s', rebook r new bs op⟩) := by
  rw [exec_map, h]
  rfl

theorem exec_of_book {op : ArOp} {r : ArRes} {w' : ArWorld} {bs : List (Addr × UInt64)}
    (h : exec ⟨s, bs⟩ op = .ok (r, w')) :
    ∃ new, exec ⟨s, []⟩ op = .ok (r, ⟨w'.st, new⟩) ∧ w'.blocks = rebook r new bs op := by
  rw [exec_map] at h
  cases hexec : exec ⟨s, []⟩ op with
  | error e =>
    rw [hexec] at h
    cases h
  | ok p =>
    rw [hexec] at h
    cases h
    exact ⟨p.2.blocks, rfl, rfl⟩

/-! ### Runs -/

/-- Only `ar_init` has another buffer. -/
theorem internalArAlloc_arena (s : ArState) (len : UInt64) :
    ((internalArAlloc s len).2.arBuf, (internalArAlloc s len).2.arSize) = (s.arBuf, s.arSize) := by
  unfold internalArAlloc
  dsimp only
  split <;> rfl

theorem arCopy_arena {str p : Addr} {s' : ArState} (h : arCopy s str len = .ok (p, s')) :
    (s'.arBuf, s'.arSize) = (s.arBuf, s.arSize) := by
  rw [← internalArAlloc_arena s (len + 1)]
  unfold arCopy at h
  generalize internalArAlloc s (len + 1) = a at h ⊢
  obtain ⟨ret, s₁⟩ := a
  dsimp only [bind, Except.bind] at h
  -- nothing to copy to, or a store that faults, or a copy that faults
  split at h
  · cases h
    rfl
  split at h
  · cases h
  split at h
  · cases h
  cases h
  rfl

/-- The step lemma for the arena in use. -/
theorem exec_arena {op : ArOp} {r : ArRes} {w' : ArWorld} (h : exec w op = .ok (r, w')) :
    (w'.st.arBuf, w'.st.arSize) = lastInit (w.st.arBuf, w.st.arSize) [op] [r] := by
  cases op with
  | init arBuf size =>
    -- only an accepted `ar_init` writes the buffer and its size
    rcases arInit_cases w.st arBuf size with hrun | ⟨hrun, -⟩
    · simp only [exec, hrun] at h
      cases h
      rfl
    · simp only [exec, hrun] at h
      cases h
      rfl
  | alloc len =>
    cases h
    exact internalArAlloc_arena w.st len
  | strdup str =>
    dsimp only [exec, arStrdup, bind, Except.bind] at h
    split at h
    · cases h
    split at h
    · cases h
    next hcopy =>
    cases h
    exact arCopy_arena hcopy
  | strndup str inlen =>
    dsimp only [exec, arStrndup, bind, Except.bind] at h
    split at h
    · cases h
    split at h
    · cases h
    next hcopy =>
    cases h
    exact arCopy_arena hcopy

/-- The run lemma for the arena in use. -/
theorem run_arena {ops : List ArOp} {rs : List ArRes} {w' : ArWorld}
    (h : arMachine.run w ops = .ok (rs, w')) :
    (w'.st.arBuf, w'.st.arSize) = lastInit (w.st.arBuf, w.st.arSize) ops rs := by
  induction ops generalizing w rs with
  | nil =>
    cases h
    rfl
  | cons op ops ih =>
    obtain ⟨r, w₁, rs, hstep, hrun, rfl⟩ := Machine.run_cons_inv h
    have harena := exec_arena hstep
    rw [ih hrun, harena]
    cases op <;> rfl

/-- What a program can rely on in every state. -/
structure ArWorld.Safe (w : ArWorld) : Prop where
  used_le : w.st.arUsed ≤ w.st.arSize
  size_dvd : 16 ∣ w.st.arSize.toNat
  used_dvd : 16 ∣ w.st.arUsed.toNat
  /-- Nothing of the buffer is lost or counted twice. -/
  capacity : (arCapacity w.st).toNat + (w.blocks.map fun b => roundUp b.2.toNat).sum
    = w.st.arSize.toNat
  aligned : ∀ b ∈ w.blocks, 16 ∣ b.1.toNat
  inside : ∀ b ∈ w.blocks, w.st.arBuf.toNat ≤ b.1.toNat ∧
    b.1.toNat + b.2.toNat ≤ w.st.arBuf.toNat + w.st.arSize.toNat
  disjoint : w.blocks.Pairwise fun b c =>
    b.1.toNat + b.2.toNat ≤ c.1.toNat ∨ c.1.toNat + c.2.toNat ≤ b.1.toNat

theorem ArWorld.Inv.safe (h : w.Inv) : w.Safe := by
  obtain ⟨hused, haligned⟩ := h.stacked.dvd h.buf_dvd dvd_roundUp
  have hsum := h.stacked.sum_eq
  have hle := h.used_le
  have hmem : ∀ b ∈ w.blocks, (b.1.toNat, b.2.toNat) ∈ natBlocks w.blocks :=
    fun b hb => List.mem_map_of_mem hb
  refine ⟨UInt64.le_iff_toNat_le.mpr hle, h.size_dvd, hused, ?_, fun b hb => haligned _ (hmem b hb),
    ?_, List.pairwise_map.mp (h.stacked.pairwise le_roundUp)⟩
  · rw [natBlocks, List.map_map] at hsum
    show (internalArCapacity w.st).toNat + _ = _
    rw [internalArCapacity_toNat hle]
    have : (w.blocks.map fun b => roundUp b.2.toNat).sum = w.st.arUsed.toNat := hsum
    omega
  · intro b hb
    obtain ⟨hlo, hhi⟩ := h.stacked.inside (hmem b hb)
    have hround := le_roundUp b.2.toNat
    exact ⟨hlo, by dsimp only at hhi; omega⟩

/-- Every state of every run is safe, its buffer and size are those of the last `ar_init` that was
accepted, and whatever call comes next, when it fails it leaves buffer, size and used bytes as they are. -/
theorem arena_safe {m : Mem} {ops : List ArOp}
    (hops : arMachine.Admissible (ArWorld.start m) ops) :
    ∃ rs w, arMachine.run (ArWorld.start m) ops = .ok (rs, w) ∧ w.Safe ∧
      (w.st.arBuf, w.st.arSize) = lastInit (0, 0) ops rs ∧
      ∀ op, Owed w op → ∃ r w', exec w op = .ok (r, w') ∧
        (r.Failed → w.st.SameArena w'.st) := by
  have hstep : ∀ (w : ArWorld) (op : ArOp), w.Inv → arMachine.Pre w op →
      ∃ r w', arMachine.step w op = .ok (r, w') ∧ w'.Inv := by
    intro w op h hpre
    obtain ⟨r, w', hrun, hstepped⟩ := exec_inv h hpre
    exact ⟨r, w', hrun, hstepped.inv⟩
  obtain ⟨rs, w, hrun, hinv⟩ := Machine.run_invariant hstep (ArWorld.Inv.start m) hops
  refine ⟨rs, w, hrun, hinv.safe, run_arena hrun, fun op hpre => ?_⟩
  obtain ⟨r, w', hexec, hstepped⟩ := exec_inv hinv hpre
  exact ⟨r, w', hexec, hstepped.same⟩

/-- Strings of ones, each ending at the next multiple of 256; four blocks may be written. -/
def sampleMem : Mem where
  byte a := if a &&& 0xff = 0 then 0 else 1
  readable _ := true
  writable a := 0x1000 ≤ a ∧ a < 0x1040
  errno := 0

/-- A buffer, one that is not aligned, a block, a duplicate, a string too long for what is left,
and the start of it. -/
def sampleOps : List ArOp :=
  [.init 0x1000 0x40, .init 0x2008 0x10, .alloc 0x11, .strdup 0x20fd, .strdup 0x20ef,
    .strndup 0x20ef 4]

theorem sampleMem_buffer : sampleMem.Buffer 0x1000 0x40 := by
  refine ⟨by decide, by decide, ?_⟩
  decide

example : (arMachine.run (ArWorld.start sampleMem) sampleOps).map Prod.fst = .ok
    [.code 0, .code (-EINVAL), .ptr 0x1000, .ptr 0x1020, .ptr 0, .ptr 0x1030] := by
  rfl

theorem sampleOps_admissible : arMachine.Admissible (ArWorld.start sampleMem) sampleOps := by
  refine Machine.admissible_cons (fun _ => sampleMem_buffer) rfl <|
    Machine.admissible_cons (fun h => absurd h (by decide)) rfl <|
    Machine.admissible_cons (show _ ≤ _ by decide) rfl <|
    Machine.admissible_cons ?_ rfl <|
    Machine.admissible_cons ?_ rfl <|
    Machine.admissible_cons ?_ rfl trivial
  · exact ⟨3, ⟨by decide, by decide, fun _ => by decide⟩, by decide⟩
  · exact ⟨17, ⟨by decide, by decide, fun _ => by decide⟩, by decide⟩
  · exact ⟨4, ⟨by decide, by decide, fun h => absurd h (by decide)⟩, by decide⟩

theorem arena_safe_sample :
    ∃ rs w, arMachine.run (ArWorld.start sampleMem) sampleOps = .ok (rs, w) ∧ w.Safe ∧
      (w.st.arBuf, w.st.arSize) = lastInit (0, 0) sampleOps rs ∧
      ∀ op, Owed w op → ∃ r w', exec w op = .ok (r, w') ∧
        (r.Failed → w.st.SameArena w'.st) :=
  arena_safe sampleOps_admissible

end Bluetea.Arena
