import Bluetea.Queue.Equiv.Take

/-!
# Walking and destroying a queue

The loop over a queue follows one link of the nodes; over a walk that ends it visits exactly its
nodes (`forEach_spec`).  Destroying a queue frees its nodes in order, each once, and accesses no other
node (`Destroyed`).
-/

namespace Bluetea.Queue

open DoublyLinked Machine Mem

variable {m : Mem} {q : BtQueue} {l : List Addr}

/-! ### Walks -/

theorem forEach_spec (f : BtQnode → Option Addr) {fuel : ℕ} {p : Option Addr} (hm : m.WF)
    (hwalk : Walk (fun x => f (m.node x)) p l) (hlive : ∀ x ∈ l, m.Live x)
    (hfuel : l.length < fuel) :
    ∃ m', (forEach f fuel p).run m = .ok (l, m') ∧ m.Looked m' := by
  induction fuel generalizing m p l with
  | zero => omega
  | succ fuel ih =>
    cases hwalk with
    | nil => exact ⟨m, rfl, .refl m⟩
    | @cons a l hwalk =>
      -- reading the node only adds to the log, so the walk is the same afterwards
      have hlook := looked_read m a
      obtain ⟨m', hrun, hlook'⟩ := ih (hlook.relinked.wf hm) hwalk
        (fun x hx => hlive x (List.mem_cons_of_mem _ hx)) (by simpa using hfuel)
      refine ⟨m', ?_, hlook.trans hlook'⟩
      rw [forEach, run_bind_ok (run_load hm (hlive a (List.mem_cons_self ..))), run_bind_ok hrun]
      rfl

/-- The forward walk visits the queue in order. -/
theorem forEachBtQueueHead_spec {fuel : ℕ} (hm : m.WF) (h : IsQueue m q l)
    (hfuel : l.length < fuel) :
    ∃ m', (forEachBtQueueHead fuel q).run m = .ok (l, m') ∧ m.Looked m' := by
  exact forEach_spec (·.next) hm h.walk_next h.live hfuel

/-! ### Destroy -/

/-- `m'` is `m` after the nodes `l` were freed in order, with accesses to these nodes only. -/
structure Destroyed (m m' : Mem) (l : List Addr) : Prop where
  wf : m'.WF
  blocks : ∀ x, m'.blocks x = if x ∈ l then none else m.blocks x
  node : m'.node = m.node
  errno : m'.errno = m.errno
  allocated : m'.allocated = m.allocated
  freed : m'.freed = m.freed ++ l
  touched : ∃ es, m'.trace = m.trace ++ es ∧ ∀ e ∈ es, e.addr ∈ l

/-- Freeing a node, after the two reads of the loop, and then the rest. -/
theorem Destroyed.cons {m' : Mem} {a : Addr} (h : Destroyed (m.deleted a) m' l) : Destroyed m m' (a :: l) := by
  refine ⟨h.wf, ?_, h.node, h.errno, h.allocated.trans (allocated_deleted m a), ?_, ?_⟩
  · intro x
    rw [h.blocks x]
    by_cases hxl : x ∈ l
    · simp [hxl]
    · by_cases hxa : x = a
      · subst hxa
        simp [hxl, deleted, release]
      · simp [hxl, hxa, deleted, release]
  · rw [h.freed, freed_deleted, List.append_assoc]
    rfl
  · obtain ⟨es, htrace, hes⟩ := h.touched
    refine ⟨.read a :: .read a :: .free a :: es, ?_, ?_⟩
    · rw [htrace]
      simp [deleted, log, release]
    · simp only [List.mem_cons]
      rintro e (rfl | rfl | rfl | he)
      · exact Or.inl rfl
      · exact Or.inl rfl
      · exact Or.inl rfl
      · exact Or.inr (hes e he)

theorem destroyLoop_spec {fuel : ℕ} {p : Option Addr} {count : UInt32} (hm : m.WF)
    (hwalk : Walk (fun x => (m.node x).next) p l) (hlive : ∀ x ∈ l, m.Live x)
    (hcount : count.toNat = l.length) (hfuel : l.length < fuel) :
    ∃ m', (destroyLoop fuel p count).run m = .ok (0, m') ∧ Destroyed m m' l := by
  induction fuel generalizing m p l count with
  | zero => omega
  | succ fuel ih =>
    have hnodup := hwalk.nodup
    cases hwalk with
    | nil =>
      obtain rfl : count = 0 := UInt32.toNat_inj.mp hcount
      exact ⟨m, rfl, hm, fun x => by simp, rfl, rfl, rfl, by simp, [], by simp, by simp⟩
    | @cons a l hwalk =>
      rw [List.nodup_cons] at hnodup
      have ha := hlive a (List.mem_cons_self ..)
      have hm₁ := (looked_read m a).relinked.wf hm
      have hcount' : (count - 1).toNat = l.length := by
        rw [List.length_cons] at hcount
        rw [UInt32.toNat_sub_of_le _ _ (by rw [UInt32.le_iff_toNat_le]; simp; omega), hcount]
        rfl
      -- the nodes behind `a` are others, since a walk that ends has no repetition
      have hlive' : ∀ x ∈ l, (m.deleted a).Live x := by
        intro x hx
        refine (live_deleted m).mpr ⟨?_, hlive x (List.mem_cons_of_mem _ hx)⟩
        rintro rfl
        exact hnodup.1 hx
      -- freeing `a` leaves the contents of the nodes alone, and with them the rest of the walk
      obtain ⟨m', hrun, hd⟩ := ih (hm.deleted a) hwalk hlive' hcount' (by simpa using hfuel)
      refine ⟨m', ?_, hd.cons⟩
      rw [destroyLoop, run_bind_ok (run_load hm ha),
        run_bind_ok (run_btQnodeDeleteIgnoreRef hm₁ ha)]
      exact hrun

/-- Destroying a queue passes the counter check and leaves a zeroed queue. -/
theorem btQueueDestroy_spec {fuel : ℕ} (hm : m.WF) (h : IsQueue m q l) (hfuel : l.length < fuel) :
    ∃ m', (btQueueDestroy fuel q).run m = .ok (⟨none, none, 0, 0⟩, m') ∧ Destroyed m m' l := by
  by_cases hl : l = []
  · have hcount := h.count_eq_zero_iff.mpr hl
    subst hl
    refine ⟨m, ?_, hm, fun x => by simp, rfl, rfl, rfl, by simp, [], by simp, by simp⟩
    simp [btQueueDestroy, hcount]
    rfl
  · have hcount : q.count ≠ 0 := fun h0 => hl (h.count_eq_zero_iff.mp h0)
    obtain ⟨m', hrun, hd⟩ := destroyLoop_spec hm h.walk_next h.live h.count hfuel
    refine ⟨m', ?_, hd⟩
    rw [btQueueDestroy, if_pos hcount, run_bind_ok hrun]
    rfl

end Bluetea.Queue
