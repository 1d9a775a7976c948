import Bluetea.Arena.Copies
import Bluetea.Arena.Equiv.Safety

/-!
# Copies are faithful and stay as they are

The blocks of a program that writes to its memory are those of a program that does not, split
into its own blocks and the copies (`CopyWorld.Inv`).  They do not overlap, so a write to a block
of its own leaves the copies alone, and so does a call, which writes to the free part only.
-/

namespace Bluetea.Arena

/-- The two parts of the book make up a book. -/
def CopyWorld.Inv (w : CopyWorld) : Prop :=
  ∃ blocks, (ArWorld.mk w.st blocks).Inv ∧ blocks.Perm (w.owned ++ w.copies)

variable {w w' : CopyWorld} {s : ArState} {m : Mem} {r : ArRes}

theorem CopyWorld.Inv.start (m : Mem) : (CopyWorld.start m).Inv :=
  ⟨[], ArWorld.Inv.start m, List.Perm.refl []⟩

/-! ### Steps -/

/-- Booking what a call returned keeps the two parts a book. -/
theorem CopyWorld.book_perm {blocks : List (Addr × UInt64)} (r : ArRes) (w₁ : ArWorld) (op : ArOp)
    (h : blocks.Perm (w.owned ++ w.copies)) :
    (rebook r w₁.blocks blocks op).Perm ((w.book r w₁ op).owned ++ (w.book r w₁ op).copies) := by
  cases op with
  | init arBuf size =>
    unfold rebook book
    by_cases hr : r = .code 0
    · rw [if_pos hr, if_pos hr]
      exact List.Perm.refl []
    · rw [if_neg hr, if_neg hr]
      exact h
  | alloc len =>
    show (w₁.blocks ++ blocks).Perm (w₁.blocks ++ w.owned ++ w.copies)
    rw [List.append_assoc]
    exact h.append_left _
  | strdup str =>
    show (w₁.blocks ++ blocks).Perm (w.owned ++ (w₁.blocks ++ w.copies))
    exact (h.append_left _).trans (List.perm_append_comm_assoc ..)
  | strndup str inlen =>
    show (w₁.blocks ++ blocks).Perm (w.owned ++ (w₁.blocks ++ w.copies))
    exact (h.append_left _).trans (List.perm_append_comm_assoc ..)

theorem CopyWorld.book_st (r : ArRes) (w₁ : ArWorld) (op : ArOp) : (w.book r w₁ op).st = w₁.st := by
  cases op with
  | init arBuf size =>
    unfold book
    dsimp only
    split <;> rfl
  | alloc len => rfl
  | strdup str => rfl
  | strndup str inlen => rfl

/-- The bytes that an operation in `s` may change: free ones, and none if the call fails, or the
one that is written. -/
def MemOp.Touches (s : ArState) (r : ArRes) (a : Addr) : MemOp → Prop
  | .call _ => ¬r.Failed ∧ s.Free a
  | .write a' _ => a = a'

/-- What a step of a correct caller does. -/
structure CopyWorld.Stepped (w : CopyWorld) (op : MemOp) (r : ArRes) (w' : CopyWorld) : Prop where
  inv : w'.Inv
  frame : ∀ a, w'.st.mem.byte a ≠ w.st.mem.byte a → op.Touches w.st r a
  copies : w.Confined op → w.copies ⊆ w'.copies

/-- The step lemma. -/
theorem CopyWorld.step_inv (h : w.Inv) {op : MemOp} (hpre : w.Owed op) :
    ∃ r w', w.step op = .ok (r, w') ∧ Stepped w op r w' := by
  obtain ⟨blocks, hinv, hperm⟩ := h
  cases op with
  | call op =>
    -- a call keeps the invariant for the whole book, and new blocks go to one of its two parts
    have hpre' : Arena.Owed ⟨w.st, blocks⟩ op := by
      cases op <;> exact hpre
    obtain ⟨r, w₁, hexec, hstepped⟩ := exec_inv hinv hpre'
    obtain ⟨new, hnew, hblocks⟩ := exec_of_book hexec
    refine ⟨r, w.book r ⟨w₁.st, new⟩ op, ?_, ⟨w₁.blocks, ?_, ?_⟩, ?_, ?_⟩
    · simp only [step, hnew, bind, Except.bind]
      rfl
    · rw [book_st]
      exact hstepped.inv
    · rw [hblocks]
      exact book_perm r ⟨w₁.st, new⟩ op hperm
    · intro a hne
      rw [book_st] at hne
      exact hstepped.frame a hne
    · intro hconf
      cases op with
      | init arBuf size => exact absurd hconf id
      | alloc len => exact List.Subset.refl _
      | strdup str => exact List.subset_append_right ..
      | strndup str inlen => exact List.subset_append_right ..
  | write a b =>
    -- a write changes nothing but one byte
    obtain ⟨m', hstore, hperms, -, hframe⟩ := Mem.store_of_writable hpre b
    refine ⟨.code 0, { w with st := { w.st with mem := m' } }, ?_, ⟨blocks, ?_, hperm⟩, ?_,
      fun _ => List.Subset.refl _⟩
    · simp only [step, hstore, bind, Except.bind]
      rfl
    · refine ⟨hinv.size_dvd, hinv.used_le, hinv.stacked, hinv.buf_dvd, hinv.buffer.imp id ?_⟩
      intro hbuf
      exact ⟨hbuf.ne_null, hbuf.no_wrap, by rw [hperms.writable]; exact hbuf.writable⟩
    · intro a' hne
      by_contra ha
      exact hne (hframe a' ha)

/-! ### Copies stay as they are -/

/-- A copy is not in the free part. -/
theorem CopyWorld.Inv.not_free (h : w.Inv) {c : Addr × UInt64} (hc : c ∈ w.copies) {a : Addr}
    (ha : InBlock a c) : ¬w.st.Free a := by
  obtain ⟨blocks, hinv, hperm⟩ := h
  have hmem : (c.1.toNat, c.2.toNat) ∈ natBlocks blocks :=
    List.mem_map_of_mem (hperm.mem_iff.mpr (List.mem_append_right _ hc))
  obtain ⟨-, hhi⟩ := hinv.stacked.inside hmem
  have hround := le_roundUp c.2.toNat
  obtain ⟨-, hlt⟩ := ha
  rintro ⟨hfree, -⟩
  dsimp only at hfree hhi
  omega

/-- A copy is in the arena, and not in a block of the caller's own. -/
theorem CopyWorld.Inv.not_owned (h : w.Inv) {c : Addr × UInt64} (hc : c ∈ w.copies) {a : Addr}
    (ha : InBlock a c) : (w.st.arBuf.toNat ≤ a.toNat ∧
      a.toNat < w.st.arBuf.toNat + w.st.arSize.toNat) ∧ ∀ b ∈ w.owned, ¬InBlock a b := by
  obtain ⟨blocks, hinv, hperm⟩ := h
  have hsafe : (ArWorld.mk w.st blocks).Safe := hinv.safe
  obtain ⟨hlo, hhi⟩ := ha
  obtain ⟨hin, hout⟩ := hsafe.inside c (hperm.mem_iff.mpr (List.mem_append_right _ hc))
  dsimp only at hin hout
  refine ⟨⟨by omega, by omega⟩, fun b hb hab => ?_⟩
  -- the blocks of the book are pairwise disjoint, in whatever order
  have hpairs : (w.owned ++ w.copies).Pairwise fun b c =>
      b.1.toNat + b.2.toNat ≤ c.1.toNat ∨ c.1.toNat + c.2.toNat ≤ b.1.toNat :=
    (hperm.pairwise_iff fun hbc => hbc.symm).mp hsafe.disjoint
  obtain ⟨hlo', hhi'⟩ := hab
  have := (List.pairwise_append.mp hpairs).2.2 b hb c hc
  omega

/-- The copies of `w` are still there in `w'`, with the same bytes. -/
def CopyWorld.Keeps (w w' : CopyWorld) : Prop :=
  ∀ c ∈ w.copies, c ∈ w'.copies ∧ ∀ a, InBlock a c → w'.st.mem.byte a = w.st.mem.byte a

theorem CopyWorld.Keeps.trans {w₁ w₂ w₃ : CopyWorld} (h : w₁.Keeps w₂) (h' : w₂.Keeps w₃) :
    w₁.Keeps w₃ := by
  intro c hc
  obtain ⟨hc₂, hbytes⟩ := h c hc
  obtain ⟨hc₃, hbytes'⟩ := h' c hc₂
  exact ⟨hc₃, fun a ha => (hbytes' a ha).trans (hbytes a ha)⟩

/-- A step of a confined caller keeps the copies. -/
theorem CopyWorld.Stepped.keeps (h : w.Inv) {op : MemOp} (hs : Stepped w op r w')
    (hconf : w.Confined op) : w.Keeps w' := by
  intro c hc
  refine ⟨hs.copies hconf hc, fun a ha => ?_⟩
  by_contra hne
  have htouch := hs.frame a hne
  cases op with
  | call op => exact h.not_free hc ha htouch.2
  | write a' b =>
    obtain rfl : a = a' := htouch
    obtain ⟨hin, hown⟩ := h.not_owned hc ha
    rcases hconf with ⟨o, ho, hao⟩ | hout
    · exact hown o ho hao
    · exact hout hin

/-- The run lemma: a confined caller keeps the copies. -/
theorem CopyWorld.run_keeps (h : w.Inv) {ops : List MemOp}
    (hops : (copyMachine.restrict CopyWorld.Confined).Admissible w ops) :
    ∃ rs w', copyMachine.run w ops = .ok (rs, w') ∧ w'.Inv ∧ w.Keeps w' := by
  have hstep : ∀ (w₁ : CopyWorld) (op : MemOp), w₁.Inv ∧ w.Keeps w₁ →
      (copyMachine.restrict CopyWorld.Confined).Pre w₁ op →
      ∃ r w', (copyMachine.restrict CopyWorld.Confined).step w₁ op = .ok (r, w') ∧
        w'.Inv ∧ w.Keeps w' := by
    rintro w₁ op ⟨hinv, hkeeps⟩ ⟨hpre, hconf⟩
    obtain ⟨r, w', hrun, hs⟩ := step_inv hinv hpre
    exact ⟨r, w', hrun, hs.inv, hkeeps.trans (hs.keeps hinv hconf)⟩
  have hrefl : w.Keeps w := fun c hc => ⟨hc, fun _ _ => rfl⟩
  obtain ⟨rs, w', hrun, hinv, hkeeps⟩ := Machine.run_invariant hstep ⟨h, hrefl⟩ hops
  rw [Machine.run_restrict] at hrun
  exact ⟨rs, w', hrun, hinv, hkeeps⟩

/-! ### Copies are faithful -/

theorem Mem.store_withReadable {m : Mem} {rd : Addr → Bool} (a : Addr) (b : UInt8) :
    (m.withReadable rd).store a b = (m.store a b).map fun m' => m'.withReadable rd := by
  unfold store withReadable
  dsimp only
  split <;> rfl

/-- Where the bytes of the source are readable, copying them asks for no others. -/
theorem Mem.memcpyLoop_withReadable (dst src : Addr) (rd : Addr → Bool) {n i : ℕ} {m : Mem}
    (hm : ∀ j, i ≤ j → j < i + n → m.readable (src + UInt64.ofNat j))
    (hrd : ∀ j, i ≤ j → j < i + n → rd (src + UInt64.ofNat j)) :
    memcpyLoop dst src n i (m.withReadable rd)
      = (memcpyLoop dst src n i m).map fun m' => m'.withReadable rd := by
  induction n generalizing i m with
  | zero => rfl
  | succ n ih =>
    have hload : (m.withReadable rd).load (src + UInt64.ofNat i)
        = .ok (m.byte (src + UInt64.ofNat i)) := if_pos (hrd i (Nat.le_refl i) (by omega))
    have hload' : m.load (src + UInt64.ofNat i) = .ok (m.byte (src + UInt64.ofNat i)) :=
      if_pos (hm i (Nat.le_refl i) (by omega))
    rw [memcpyLoop, memcpyLoop, hload, hload']
    simp only [bind, Except.bind, store_withReadable]
    by_cases hw : m.writable (dst + UInt64.ofNat i) = true
    · obtain ⟨m₁, hstore, hperms, -⟩ := store_of_writable hw (m.byte (src + UInt64.ofNat i))
      rw [hstore]
      refine ih (fun j hj hjn => ?_) fun j hj hjn => hrd j (by omega) (by omega)
      rw [hperms.readable]
      exact hm j (by omega) (by omega)
    · rw [store, if_neg hw]
      rfl

/-- The allocation does not look at what is readable. -/
theorem internalArAlloc_withReadable (s : ArState) (rd : Addr → Bool) (len : UInt64) :
    internalArAlloc (s.withReadable rd) len
      = ((internalArAlloc s len).1, (internalArAlloc s len).2.withReadable rd) := by
  unfold internalArAlloc
  show (if internalArCapacity s < _ then _ else _) = _
  dsimp only
  split <;> rfl

theorem readable_internalArAlloc (s : ArState) (len : UInt64) :
    (internalArAlloc s len).2.mem.readable = s.mem.readable := by
  unfold internalArAlloc
  dsimp only
  split <;> rfl

theorem arCopy_withReadable {str : Addr} {rd : Addr → Bool} {k : ℕ} (hk : k < 2 ^ 64)
    (hm : ∀ j, j < k → s.mem.readable (str + UInt64.ofNat j))
    (hrd : ∀ j, j < k → rd (str + UInt64.ofNat j)) :
    arCopy (s.withReadable rd) str (UInt64.ofNat k)
      = (arCopy s str (UInt64.ofNat k)).map fun x => (x.1, x.2.withReadable rd) := by
  have hkn : (UInt64.ofNat k).toNat = k := by
    rw [UInt64.toNat_ofNat']
    exact Nat.mod_eq_of_lt hk
  have hreadable := readable_internalArAlloc s (UInt64.ofNat k + 1)
  unfold arCopy
  rw [internalArAlloc_withReadable]
  generalize internalArAlloc s (UInt64.ofNat k + 1) = x at hreadable ⊢
  obtain ⟨p, s₁⟩ := x
  dsimp only at hreadable ⊢
  by_cases h0 : p = 0
  · rw [if_pos h0, if_pos h0]
    rfl
  · rw [if_neg h0, if_neg h0]
    show ((s₁.mem.withReadable rd).store _ _ >>= _) = _
    rw [Mem.store_withReadable]
    by_cases hw : s₁.mem.writable (p + UInt64.ofNat k) = true
    · obtain ⟨m₁, hstore, hperms, -⟩ := Mem.store_of_writable hw 0
      -- the copy reads only the source, which both memories may read
      have hloop := Mem.memcpyLoop_withReadable p str rd (n := k) (i := 0) (m := m₁)
        (fun j _ hj => by rw [hperms.readable, hreadable]; exact hm j (by omega))
        (fun j _ hj => hrd j (by omega))
      rw [hstore]
      simp only [bind, Except.bind, Except.map, Mem.memcpy, hkn]
      rw [hloop]
      cases Mem.memcpyLoop p str k 0 m₁ <;> rfl
    · rw [Mem.store, if_neg hw]
      rfl

theorem Mem.Scans.withReadable {str : Addr} {n k : ℕ} (h : m.Scans str n k) {rd : Addr → Bool}
    (hrd : ∀ i, i ≤ k → i < n → rd (str + UInt64.ofNat i)) :
    (m.withReadable rd).Scans str n k :=
  ⟨h.le, fun i hi => ⟨hrd i (Nat.le_of_lt hi) (Nat.lt_of_lt_of_le hi h.le), (h.before i hi).2⟩,
    fun hk => ⟨hrd k (Nat.le_refl k) hk, (h.stop hk).2⟩⟩

/-- Up to the length of the string it does not matter where the scan would end. -/
theorem Mem.Scans.mono {str : Addr} {n n' k : ℕ} (h : m.Scans str n k) (hk : k ≤ n')
    (hn : n' ≤ n) : m.Scans str n' k :=
  ⟨hk, h.before, fun hlt => h.stop (Nat.lt_of_lt_of_le hlt hn)⟩

/-- `ar_strndup` copies what the scan found. -/
theorem CopyWorld.Inv.duplicates (h : w.Inv) {str : Addr} {n : UInt64} {k : ℕ}
    (hsrc : w.st.Source str n.toNat k) :
    ∃ p s', w.st.Duplicates str n k p s' := by
  obtain ⟨blocks, hinv, -⟩ := h
  obtain ⟨hscan, hk, hfree⟩ := hsrc
  have hmax : maxLen = 2 ^ 64 - 16 := by decide
  obtain ⟨p, s', hcopy, -, -, hcopied⟩ := arCopy_spec hinv hk fun i hi => (hscan.before i hi).1
  dsimp only at hcopy hcopied
  have hrun : arStrndup w.st str n = .ok (p, s') := by
    simp only [arStrndup, Mem.strnlen_eq hscan, bind, Except.bind]
    exact hcopy
  refine ⟨p, s', hrun, ?_, hcopied.terminator, ?_, ?_⟩
  · intro h0 i hi
    have hbyte := hcopied.bytes h0 hfree i hi
    refine ⟨hbyte, ?_⟩
    rw [hbyte]
    exact (hscan.before i hi).2
  · intro h0
    funext a
    by_contra hne
    exact (hcopied.frame a hne).1 h0
  · -- the scan and the copy read no more than the `k` bytes and what ended the scan
    intro rd hrd
    have hscan' : (w.st.withReadable rd).mem.Scans str n.toNat k := hscan.withReadable hrd
    simp only [arStrndup, Mem.strnlen_eq hscan', bind, Except.bind]
    have hlt : k < 2 ^ 64 := by omega
    rw [arCopy_withReadable hlt (fun i hi => (hscan.before i hi).1) fun i hi =>
      hrd i (Nat.le_of_lt hi) (Nat.lt_of_lt_of_le hi hscan.le), hcopy]
    rfl

/-- With room for the whole string `ar_strndup` is `ar_strdup`. -/
theorem arStrdup_eq {str : Addr} {k : ℕ} (h : s.mem.Scans str UInt64.size k)
    (hk : k + 1 ≤ maxLen) {n : UInt64} (hn : k ≤ n.toNat) : arStrdup s str = arStrndup s str n := by
  have hmax : maxLen = 2 ^ 64 - 16 := by decide
  have hsize : UInt64.size = 2 ^ 64 := rfl
  have hlt := n.toNat_lt
  rw [arStrdup, arStrndup, Mem.strlen_eq h (by omega), Mem.strnlen_eq (h.mono hn (by omega))]

/-! ### Runs -/

/-- The copy is booked. -/
theorem CopyWorld.step_strndup {str p : Addr} {n : UInt64} {k : ℕ} {s' : ArState}
    (hscan : w.st.mem.Scans str n.toNat k) (hrun : arStrndup w.st str n = .ok (p, s')) :
    w.step (.call (.strndup str n)) =
      .ok (.ptr p, ⟨s', w.owned, record p (UInt64.ofNat k + 1) [] ++ w.copies⟩) := by
  simp only [step, exec, Mem.strnlen_eq hscan, hrun, bind, Except.bind]
  rfl

/-- In every state, `ar_strndup` copies the string or as much of it as was asked for and reads no
byte behind that, `ar_strdup` does the same when the whole string is asked for, and a call that
fails changes no byte.  Whatever a confined caller does later, the copies stay as they are. -/
theorem arena_copies {ops : List MemOp} (hops : copyMachine.Admissible (CopyWorld.start m) ops) :
    ∃ rs w, copyMachine.run (CopyWorld.start m) ops = .ok (rs, w) ∧
      (∀ str (n : UInt64) k, w.st.Source str n.toNat k →
        ∃ p w', w.step (.call (.strndup str n)) = .ok (.ptr p, w') ∧
          w.st.Duplicates str n k p w'.st ∧
          (p ≠ 0 → (p, UInt64.ofNat k + 1) ∈ w'.copies)) ∧
      (∀ str k, w.st.Source str UInt64.size k → ∀ n : UInt64, k ≤ n.toNat →
        arStrdup w.st str = arStrndup w.st str n) ∧
      (∀ op, w.Owed (.call op) → ∃ r w', w.step (.call op) = .ok (r, w') ∧
        (r.Failed → w'.st.mem.byte = w.st.mem.byte)) ∧
      ∀ later, (copyMachine.restrict CopyWorld.Confined).Admissible w later →
        ∃ rs' w', copyMachine.run w later = .ok (rs', w') ∧ w.Keeps w' := by
  have hstep : ∀ (w : CopyWorld) (op : MemOp), w.Inv → copyMachine.Pre w op →
      ∃ r w', copyMachine.step w op = .ok (r, w') ∧ w'.Inv := by
    intro w op h hpre
    obtain ⟨r, w', hrun, hs⟩ := CopyWorld.step_inv h hpre
    exact ⟨r, w', hrun, hs.inv⟩
  obtain ⟨rs, w, hrun, hinv⟩ := Machine.run_invariant hstep (CopyWorld.Inv.start m) hops
  refine ⟨rs, w, hrun, ?_, ?_, ?_, ?_⟩
  · intro str n k hsrc
    obtain ⟨p, s', hdup⟩ := hinv.duplicates hsrc
    refine ⟨p, _, CopyWorld.step_strndup hsrc.scans hdup.run, hdup, fun h0 => ?_⟩
    rw [record, if_neg h0]
    exact List.mem_cons_self ..
  · intro str k hsrc n hn
    exact arStrdup_eq hsrc.scans hsrc.length_le hn
  · intro op hpre
    obtain ⟨r, w', hexec, hs⟩ := CopyWorld.step_inv hinv hpre
    -- a byte that a failed call writes would be one that the frame of the step allows
    refine ⟨r, w', hexec, fun hfailed => ?_⟩
    funext a
    by_contra hne
    exact (hs.frame a hne).1 hfailed
  · intro later hlater
    obtain ⟨rs', w', hlate, -, hkeeps⟩ := CopyWorld.run_keeps hinv hlater
    exact ⟨rs', w', hlate, hkeeps⟩

/-- A block of the caller's own, a byte written to it, and the start of a string. -/
theorem arena_copies_sample :
    ∃ rs w, copyMachine.run (CopyWorld.start sampleMem) [.call (.init 0x1000 0x40),
        .call (.alloc 0x11), .write 0x1010 7, .call (.strndup 0x20ef 4)] = .ok (rs, w) ∧
      (∀ str (n : UInt64) k, w.st.Source str n.toNat k →
        ∃ p w', w.step (.call (.strndup str n)) = .ok (.ptr p, w') ∧
          w.st.Duplicates str n k p w'.st ∧
          (p ≠ 0 → (p, UInt64.ofNat k + 1) ∈ w'.copies)) ∧
      (∀ str k, w.st.Source str UInt64.size k → ∀ n : UInt64, k ≤ n.toNat →
        arStrdup w.st str = arStrndup w.st str n) ∧
      (∀ op, w.Owed (.call op) → ∃ r w', w.step (.call op) = .ok (r, w') ∧
        (r.Failed → w'.st.mem.byte = w.st.mem.byte)) ∧
      ∀ later, (copyMachine.restrict CopyWorld.Confined).Admissible w later →
        ∃ rs' w', copyMachine.run w later = .ok (rs', w') ∧ w.Keeps w' :=
  arena_copies <|
    Machine.admissible_cons (fun _ => sampleMem_buffer) rfl <|
    Machine.admissible_cons (show _ ≤ _ by decide) rfl <|
    Machine.admissible_cons (show _ = true by decide) rfl <|
    Machine.admissible_cons
      ⟨4, ⟨by decide, by decide, fun h => absurd h (by decide)⟩, by decide⟩ rfl trivial

end Bluetea.Arena
