import Bluetea.Queue.Equiv.Enqueue
import Bluetea.Queue.Equiv.Validate
import Bluetea.Queue.Pool

/-!
# What `bt_qnode_delete` takes for a referenced node

`Pool.Good w lists` is the invariant of a program with several queues: queue `i` holds the nodes
`lists i`, no node is in two queues, and a node that is in none has both links cleared.  The
guard of `bt_qnode_delete` looks at the two links only, so it sees a node that has a neighbour,
and not the only node of a queue; and the tail pointer of a queue emptied by `bt_queue_dequeue`
still leads to a node that it does not see.  In every other state it is exact
(`btQnodeDelete_refuses_iff`).
-/

namespace Bluetea.Queue

open DoublyLinked Machine Mem

/-- The invariant: `lists i` are the nodes of queue `i`. -/
structure Pool.Good (w : Pool) (lists : ℕ → List Addr) : Prop where
  wf : w.mem.WF
  queue : ∀ i, IsQueue w.mem (w.queues i) (lists i)
  disjoint : ∀ i j, i ≠ j → ∀ a ∈ lists i, a ∉ lists j
  loose : ∀ a, w.mem.Live a → (∀ i, a ∉ lists i) → w.mem.link a = ⟨none, none⟩
  held : ∀ a ∈ w.held, w.mem.Live a ∧ ∀ i, a ∉ lists i
  held_nodup : w.held.Nodup

/-- A queue of two or more nodes is not initialised again. -/
def NoDrop (w : Pool) : PoolOp → Prop
  | .init i _ => (w.queues i).count ≤ 1
  | _ => True

namespace Pool

variable {w : Pool} {lists : ℕ → List Addr} {i : ℕ} {m' : Mem} {q' : BtQueue} {l' held' : List Addr}

theorem good_init {m : Mem} (hm : ∀ a, ¬m.Live a) (q : ℕ → BtQueue) (maxEl : ℕ → UInt32) :
    (Pool.init m q maxEl).Good fun _ => [] where
  wf := ⟨fun a b hb => absurd ⟨b, hb⟩ (hm a), fun a _ b _ hb => absurd ⟨b, hb⟩ (hm a)⟩
  queue _ := ⟨rfl, fun h => absurd rfl h, trivial, by simp, rfl, Nat.zero_le _⟩
  disjoint _ _ _ a ha := by cases ha
  loose a ha := absurd ha (hm a)
  held a ha := by cases ha
  held_nodup := List.nodup_nil

theorem Good.setErrno (h : w.Good lists) (i : ℕ) (e : Int) :
    (w.set i (w.mem.setErrno e) (w.queues i)).Good lists := by
  have hqueues : Function.update w.queues i (w.queues i) = w.queues := Function.update_eq_self ..
  unfold Pool.set
  rw [hqueues]
  exact ⟨h.wf.congr rfl, fun j => (h.queue j).congr (fun _ _ => rfl) (h.queue j).live, h.disjoint,
    h.loose, h.held, h.held_nodup⟩

/-! ### One call -/

/-- What a call on queue `i` may do so that the invariant is kept: it links nodes of its queue and
new ones, leaves the links of all others alone, and clears those of the nodes it lets go. -/
structure Local (w : Pool) (i : ℕ) (l : List Addr) (m' : Mem) (q' : BtQueue)
    (l' held' : List Addr) : Prop where
  wf : m'.WF
  queue : IsQueue m' q' l'
  live : ∀ a, w.mem.Live a → m'.Live a
  frame : ∀ a, a ∉ l → w.mem.Live a → m'.link a = w.mem.link a
  linked : ∀ a ∈ l', a ∈ l ∨ ¬w.mem.Live a
  loose : ∀ a, m'.Live a → a ∉ l' → w.mem.Live a ∧ a ∉ l ∨ m'.link a = ⟨none, none⟩
  held : ∀ a ∈ held', a ∈ w.held ∨ a ∈ l ∧ a ∉ l'
  held_nodup : held'.Nodup

/-- A node in no other queue, and not in queue `i` any more. -/
theorem not_mem_update {a : Addr} (hal : a ∉ l') (hother : ∀ j, j ≠ i → a ∉ lists j) (j : ℕ) :
    a ∉ Function.update lists i l' j := by
  by_cases hj : j = i
  · subst hj
    rw [Function.update_self]
    exact hal
  · rw [Function.update_of_ne hj]
    exact hother j hj

/-- The queues share no node when `l'` takes the place of queue `i`, and shares none with the
others. -/
theorem disjoint_update (h : ∀ j k, j ≠ k → ∀ a ∈ lists j, a ∉ lists k)
    (hother : ∀ j, j ≠ i → ∀ a ∈ lists j, a ∉ l') {j k : ℕ} (hjk : j ≠ k) {a : Addr}
    (ha : a ∈ Function.update lists i l' j) : a ∉ Function.update lists i l' k := by
  by_cases hj : j = i
  · subst hj
    rw [Function.update_self] at ha
    rw [Function.update_of_ne hjk.symm]
    intro hk
    exact hother k hjk.symm a hk ha
  · rw [Function.update_of_ne hj] at ha
    by_cases hk : k = i
    · subst hk
      rw [Function.update_self]
      exact hother j hj a ha
    · rw [Function.update_of_ne hk]
      exact h j k hjk a ha

/-- A call that only touches its own queue keeps the invariant. -/
theorem Good.of_local (h : w.Good lists) (hl : w.Local i (lists i) m' q' l' held') :
    ({ w.set i m' q' with held := held' } : Pool).Good (Function.update lists i l') := by
  -- a node of another queue is neither in this one nor new
  have hother : ∀ j, j ≠ i → ∀ a ∈ lists j, a ∉ l' := by
    intro j hj a ha hal
    rcases hl.linked a hal with hmem | hdead
    · exact h.disjoint j i hj a ha hmem
    · exact hdead ((h.queue j).live a ha)
  constructor
  · exact hl.wf
  · intro j
    by_cases hj : j = i
    · subst hj
      simpa [Pool.set] using hl.queue
    · have hqueue : IsQueue m' (w.queues j) (lists j) := by
        refine (h.queue j).congr (fun a ha => ?_) fun a ha => hl.live a ((h.queue j).live a ha)
        exact hl.frame a (h.disjoint j i hj a ha) ((h.queue j).live a ha)
      simpa [Pool.set, hj] using hqueue
  · intro j k hjk a ha
    exact disjoint_update h.disjoint hother hjk ha
  · intro a ha hnone
    have hal : a ∉ l' := by simpa using hnone i
    rcases hl.loose a ha hal with ⟨hlive, hai⟩ | hlink
    · have hlink : m'.link a = w.mem.link a := hl.frame a hai hlive
      refine hlink.trans (h.loose a hlive fun j => ?_)
      by_cases hj : j = i
      · rw [hj]
        exact hai
      · simpa [hj] using hnone j
    · exact hlink
  · intro a ha
    rcases hl.held a ha with hold | ⟨hai, hal⟩
    · obtain ⟨hlive, hnone⟩ := h.held a hold
      have hal : a ∉ l' := fun hal =>
        (hl.linked a hal).elim (hnone i) fun hdead => hdead hlive
      exact ⟨hl.live a hlive, not_mem_update hal fun j _ => hnone j⟩
    · refine ⟨hl.live a ((h.queue i).live a hai), not_mem_update hal ?_⟩
      intro j hj
      exact h.disjoint i j (Ne.symm hj) a hai
  · exact hl.held_nodup

/-- Initialising a queue of at most one node lets go of a node that has no neighbour. -/
theorem Good.initLocal (h : w.Good lists) (hcount : (w.queues i).count ≤ 1) (maxEl : UInt32) :
    w.Local i (lists i) w.mem (btQueueInit (w.queues i) maxEl) [] w.held where
  wf := h.wf
  queue := ⟨rfl, fun hne => absurd rfl hne, trivial, by simp, rfl, Nat.zero_le _⟩
  live _ ha := ha
  frame _ _ _ := rfl
  linked a ha := by cases ha
  loose a ha _ := by
    by_cases hai : a ∈ lists i
    · -- the only node of the queue
      have hlen : (lists i).length ≤ 1 := by
        rw [← (h.queue i).count]
        exact UInt32.le_iff_toNat_le.mp hcount
      obtain ⟨x, hx⟩ := List.length_eq_one_iff.mp
        (Nat.le_antisymm hlen (List.length_pos_of_mem hai))
      have hseg := (h.queue i).seg
      rw [hx] at hseg hai
      rw [List.mem_singleton.mp hai]
      exact Or.inr hseg.1
    · exact Or.inl ⟨ha, hai⟩
  held _ ha := Or.inl ha
  held_nodup := h.held_nodup

theorem Good.enqueueLocal (h : w.Good lists) {a : Addr} {bytes : List UInt8}
    (he : Enqueued w.mem m' (w.queues i) q' a bytes (lists i)) :
    w.Local i (lists i) m' q' (lists i ++ [a]) w.held where
  wf := he.wf
  queue := he.queue
  live x hx := by
    obtain ⟨blk, hblk⟩ := hx
    have hne : x ≠ a := by
      rintro rfl
      exact he.fresh ⟨blk, hblk⟩
    exact ⟨blk, (he.blocks x hne).trans hblk⟩
  frame x hx hlive := he.frame x hx fun hxa => he.fresh (hxa ▸ hlive)
  linked x hx := by
    rcases List.mem_append.mp hx with hx | hx
    · exact Or.inl hx
    · rw [List.mem_singleton.mp hx]
      exact Or.inr he.fresh
  loose x hx hxl := by
    simp only [List.mem_append, List.mem_singleton, not_or] at hxl
    obtain ⟨blk, hblk⟩ := hx
    exact Or.inl ⟨⟨blk, (he.blocks x hxl.2).symm.trans hblk⟩, hxl.1⟩
  held _ hx := Or.inl hx
  held_nodup := h.held_nodup

theorem Good.takenLocal (h : w.Good lists) {a : Addr} {l₁ l₂ : List Addr}
    (hlists : lists i = l₁ ++ a :: l₂)
    (ht : Taken w.mem m' (w.queues i) q' a (lists i) (l₁ ++ l₂)) :
    w.Local i (lists i) m' q' (l₁ ++ l₂) (a :: w.held) where
  wf := ht.relinked.wf h.wf
  queue := ht.queue
  live x hx := ht.relinked.live_iff.mpr hx
  frame x hx _ := ht.frame x hx
  linked x hx := by
    rw [hlists]
    rcases List.mem_append.mp hx with hx | hx <;> simp [hx]
  loose x hx hxl := by
    by_cases hxa : x = a
    · rw [hxa]
      exact Or.inr ht.link
    · -- a node that was not in the queue before either
      refine Or.inl ⟨ht.relinked.live_iff.mp hx, ?_⟩
      rw [hlists]
      simp only [List.mem_append, not_or] at hxl
      simp [hxl.1, hxl.2, hxa]
  held x hx := by
    rcases List.mem_cons.mp hx with rfl | hx
    · have hnodup := (h.queue i).nodup
      rw [hlists] at hnodup
      have hout := (List.nodup_cons.mp (List.nodup_middle.mp hnodup)).1
      exact Or.inr ⟨by rw [hlists]; simp, hout⟩
    · exact Or.inl hx
  held_nodup := by
    refine List.nodup_cons.mpr ⟨fun ha => ?_, h.held_nodup⟩
    exact (h.held a ha).2 i (by rw [hlists]; simp)

/-- Deleting a held node frees it, and nothing else changes. -/
theorem Good.delete (h : w.Good lists) {a : Addr} (ha : a ∈ w.held) :
    ({ w with mem := w.mem.deleted a, held := w.held.erase a } : Pool).Good lists := by
  constructor
  · exact h.wf.deleted a
  · intro i
    refine (h.queue i).congr (fun _ _ => rfl) fun x hx => ?_
    refine (live_deleted w.mem).mpr ⟨?_, (h.queue i).live x hx⟩
    rintro rfl
    exact (h.held x ha).2 i hx
  · exact h.disjoint
  · intro x hx hnone
    exact h.loose x ((live_deleted w.mem).mp hx).2 hnone
  · intro x hx
    obtain ⟨hxlive, hnone⟩ := h.held x (List.mem_of_mem_erase hx)
    refine ⟨(live_deleted w.mem).mpr ⟨?_, hxlive⟩, hnone⟩
    rintro rfl
    exact h.held_nodup.not_mem_erase hx
  · exact h.held_nodup.erase a

/-- A node that is not in the queue stops the validating build. -/
theorem run_btQnodeDetach_notMember {m : Mem} {q : BtQueue} {l : List Addr} {fuel : ℕ} {n : Addr}
    (hm : m.WF) (h : IsQueue m q l) (hfuel : l.length < fuel) (hn : n ∉ l) :
    ∃ site m', (btQnodeDetach .debug fuel q (some n)).run m = .error ⟨.abort site, m'⟩ := by
  by_cases hl : l = []
  · -- the counter is looked at first
    have hcount : q.count = 0 := h.count_eq_zero_iff.mpr hl
    have hvalid : (detachValidate .debug fuel q (some n)).run m
        = .error ⟨.abort (.detachInvalid 1), m⟩ := by
      unfold detachValidate
      rw [if_pos rfl, if_pos hcount]
      rfl
    exact ⟨_, m, run_bind_error hvalid⟩
  · exact run_btQnodeDetach_absent hm (.of_isQueue h (h.tail hl)) h.live hfuel hn

theorem Good.member_iff (h : w.Good lists) {n : Addr} : w.Member i n ↔ n ∈ lists i := by
  have hwalk := (h.queue i).walk_next
  constructor
  · rintro ⟨l, hl, hn⟩
    rwa [hwalk.unique hl]
  · intro hn
    exact ⟨lists i, hwalk, hn⟩

section Exec

variable {b : Build} {fuel : ℕ} {r : Option Addr} {w' : Pool}

theorem Good.exec_enqueue (h : w.Good lists) {ans : Option UInt64} {data : CObj} {len : UInt64}
    (hpre : w.Owed b (.enqueue i ans data len))
    (hexec : w.exec b fuel (.enqueue i ans data len) = .ok (r, w')) :
    ∃ lists', w'.Good lists' := by
  rw [Pool.exec] at hexec
  by_cases hfull : (w.queues i).maxEl.toNat ≤ (lists i).length
  · rw [outcome_ok (run_btQueueEnqueue_full b ans (h.queue i) hfull)] at hexec
    cases hexec
    exact ⟨lists, h.setErrno i EAGAIN⟩
  · have hlt : (lists i).length < (w.queues i).maxEl.toNat := Nat.lt_of_not_le hfull
    cases ans with
    | none =>
      rw [outcome_ok (run_btQueueEnqueue_noMemory b (h.queue i) hlt)] at hexec
      cases hexec
      exact ⟨lists, h.setErrno i ENOMEM⟩
    | some orig =>
      obtain ⟨hdata, hans⟩ := hpre
      have hlen : len.toNat + 129 < 2 ^ 64 := by
        have := data.length_lt
        omega
      by_cases htight : b = .debug → IsQueue.Tight (w.queues i) (lists i)
      · obtain ⟨m', q', hrun, he⟩ :=
          btQueueEnqueue_spec h.wf (h.queue i) hlt hlen (hans orig rfl) hdata b htight
        rw [outcome_ok hrun] at hexec
        cases hexec
        exact ⟨_, h.of_local (h.enqueueLocal he)⟩
      · -- the assertion about the tail of an empty queue stops the program
        obtain ⟨hb, hloose⟩ := Classical.not_imp.mp htight
        obtain ⟨hl, htail⟩ := Classical.not_imp.mp hloose
        subst hb
        obtain ⟨m', hrun⟩ :=
          run_btQueueEnqueue_assert h.wf (h.queue i) hlt hlen (hans orig rfl) hdata hl htail
        rw [outcome_error hrun] at hexec
        cases hexec

theorem Good.exec_dequeue (h : w.Good lists) (hexec : w.exec b fuel (.dequeue i) = .ok (r, w')) :
    ∃ lists', w'.Good lists' := by
  rw [Pool.exec] at hexec
  have hqueue := h.queue i
  cases hlists : lists i with
  | nil =>
    rw [hlists] at hqueue
    rw [outcome_ok (run_btQueueDequeue_empty b hqueue)] at hexec
    cases hexec
    exact ⟨lists, h.setErrno i EAGAIN⟩
  | cons a l =>
    rw [hlists] at hqueue
    obtain ⟨m', q', hrun, ht, -⟩ := btQueueDequeue_spec b h.wf hqueue
    rw [outcome_ok hrun] at hexec
    cases hexec
    rw [← hlists] at ht
    have hfront : lists i = [] ++ a :: l := hlists
    exact ⟨_, h.of_local (h.takenLocal hfront ht)⟩

theorem Good.exec_detach (hfuel : 2 ^ 32 ≤ fuel) (h : w.Good lists) {n : Addr}
    (hpre : w.Owed b (.detach i n)) (hexec : w.exec b fuel (.detach i n) = .ok (r, w')) :
    ∃ lists', w'.Good lists' := by
  rw [Pool.exec] at hexec
  have hlen : (lists i).length < fuel := by
    have hle := (h.queue i).le_max
    have hmax := (w.queues i).maxEl.toNat_lt
    omega
  by_cases hn : n ∈ lists i
  · obtain ⟨l₁, l₂, hlists⟩ := List.append_of_mem hn
    have hqueue := h.queue i
    rw [hlists] at hqueue hlen
    obtain ⟨m', q', hrun, ht, -⟩ := btQnodeDetach_spec b fuel h.wf hqueue hlen
    rw [outcome_ok hrun] at hexec
    cases hexec
    rw [← hlists] at ht
    exact ⟨_, h.of_local (h.takenLocal hlists ht)⟩
  · -- a node that is not in the queue: excluded without the check, refused with it
    cases b with
    | ndebug => exact absurd (h.member_iff.mp (hpre rfl)) hn
    | debug =>
      obtain ⟨site, m', hrun⟩ := run_btQnodeDetach_notMember h.wf (h.queue i) hlen hn
      rw [outcome_error hrun] at hexec
      cases hexec

/-- The step lemma: a call that does not stop the program keeps the invariant. -/
theorem Good.exec (hfuel : 2 ^ 32 ≤ fuel) (h : w.Good lists) {op : PoolOp}
    (hpre : w.Owed b op) (hdrop : NoDrop w op) (hexec : w.exec b fuel op = .ok (r, w')) :
    ∃ lists', w'.Good lists' := by
  cases op with
  | init i maxEl =>
    cases hexec
    exact ⟨_, h.of_local (h.initLocal hdrop maxEl)⟩
  | enqueue i ans data len => exact h.exec_enqueue hpre hexec
  | dequeue i => exact h.exec_dequeue hexec
  | detach i n => exact h.exec_detach hfuel hpre hexec
  | delete n =>
    -- a node that the caller holds has no links, so the delete does not refuse it
    have hheld : n ∈ w.held := hpre
    obtain ⟨hlive, hnone⟩ := h.held n hheld
    have hlink := h.loose n hlive hnone
    have hrun := run_btQnodeDelete h.wf hlive (congrArg Link.next hlink)
      (congrArg Link.prev hlink)
    rw [Pool.exec] at hexec
    rw [outcome_ok hrun] at hexec
    cases hexec
    exact ⟨lists, h.delete hheld⟩

end Exec

/-! ### The guard -/

/-- Following `f` from a pointer through live nodes meets the node. -/
inductive Reaches (m : Mem) (f : BtQnode → Option Addr) : Option Addr → Addr → Prop
  | here {a : Addr} : Reaches m f (some a) a
  | step {a n : Addr} : m.Live a → Reaches m f (f (m.node a)) n → Reaches m f (some a) n

/-- `bt_qnode_delete(n)` takes its abort. -/
def Aborts (w : Pool) (n : Addr) : Prop :=
  outcome (btQnodeDelete (some n)) w.mem = .error (.abort .deleteReferenced)

/-- The guard is right about `n`: it aborts when `n` is in a queue and only then, what it lets
through is met from no queue's head or tail, and what the caller holds is let through. -/
structure RefusesInUse (w : Pool) (n : Addr) : Prop where
  aborts_iff : w.Aborts n ↔ ∃ i, w.Member i n
  unreached : ¬w.Aborts n → ∀ i, ¬Reaches w.mem (·.next) (w.queues i).head n ∧
    ¬Reaches w.mem (·.prev) (w.queues i).tail n
  held : n ∈ w.held → ¬w.Aborts n

/-- The node is the only one of a queue, or it is in no queue and the tail pointer of an empty one
still leads to it. -/
def Exposed (w : Pool) (n : Addr) : Prop :=
  (∃ i, (w.queues i).count = 1 ∧ (w.queues i).head = some n) ∨
    (∀ i, ¬w.Member i n) ∧ ∃ i, (w.queues i).count = 0 ∧ (w.queues i).tail = some n

/-- The guard is a test of the two links. -/
theorem aborts_iff_link {n : Addr} (hm : w.mem.WF) (hn : w.mem.Live n) :
    w.Aborts n ↔ w.mem.link n ≠ ⟨none, none⟩ := by
  unfold Aborts
  constructor
  · intro habort hlink
    have hrun := run_btQnodeDelete hm hn (congrArg Link.next hlink) (congrArg Link.prev hlink)
    rw [outcome_ok hrun] at habort
    cases habort
  · exact fun hlink => outcome_error (run_btQnodeDelete_abort hm hn hlink)

theorem Reaches.eq_of_unreferenced {m : Mem} {f : BtQnode → Option Addr} {p : Option Addr}
    {n : Addr} (hno : ∀ a, m.Live a → f (m.node a) ≠ some n) (h : Reaches m f p n) :
    p = some n := by
  induction h with
  | here => rfl
  | step ha _ ih => exact absurd (ih hno) (hno _ ha)

/-- A node of a queue to which another one points points back. -/
theorem link_ne_of_neighbour {m : Mem} {q : BtQueue} {l : List Addr} {a n : Addr}
    (h : IsQueue m q l) (ha : a ∈ l)
    (hn : (m.link a).next = some n ∨ (m.link a).prev = some n) : m.link n ≠ ⟨none, none⟩ := by
  obtain ⟨l₁, l₂, rfl⟩ := List.append_of_mem ha
  obtain ⟨hseg₁, hlink, hseg₂⟩ := h.split
  rw [hlink] at hn
  rcases hn with hnext | hprev
  · -- the node behind `a` points back to it, the one in front of it points to it
    cases l₂ with
    | nil => cases hnext
    | cons b l₂ =>
      cases hnext
      rw [hseg₂.1]
      simp
  · cases l₁ using List.reverseRecOn with
    | nil => cases hprev
    | append_singleton l₁ b =>
      obtain rfl : b = n := by simpa using hprev
      rw [(seg_append.mp hseg₁).2.1]
      simp

section Guard

variable {n : Addr} (h : w.Good lists) (hn : w.mem.Live n)

include h

/-- No live node points to one that has no neighbour. -/
theorem Good.unreferenced (hlink : w.mem.link n = ⟨none, none⟩) {a : Addr} (ha : w.mem.Live a) :
    (w.mem.node a).next ≠ some n ∧ (w.mem.node a).prev ≠ some n := by
  by_cases hmem : ∃ j, a ∈ lists j
  · obtain ⟨j, haj⟩ := hmem
    constructor
    · intro hnext
      exact link_ne_of_neighbour (h.queue j) haj (Or.inl hnext) hlink
    · intro hprev
      exact link_ne_of_neighbour (h.queue j) haj (Or.inr hprev) hlink
  · -- a node in no queue points to none
    have hnone := h.loose a ha (not_exists.mp hmem)
    have hnext : (w.mem.node a).next = none := congrArg Link.next hnone
    have hprev : (w.mem.node a).prev = none := congrArg Link.prev hnone
    rw [hnext, hprev]
    simp

/-- In a queue of one node the guard sees nothing. -/
theorem Good.sole (hcount : (w.queues i).count = 1) (hhead : (w.queues i).head = some n) :
    n ∈ lists i ∧ w.mem.link n = ⟨none, none⟩ := by
  have hqueue := h.queue i
  have hlen : (lists i).length = 1 := by
    rw [← hqueue.count, hcount]
    rfl
  obtain ⟨x, hx⟩ := List.length_eq_one_iff.mp hlen
  rw [hx] at hqueue ⊢
  obtain rfl : x = n := by simpa [hhead] using hqueue.head.symm
  exact ⟨List.mem_singleton.mpr rfl, hqueue.seg.1⟩

/-- In a longer one it sees every node. -/
theorem Good.link_ne (hmem : n ∈ lists i)
    (hsole : ¬((w.queues i).count = 1 ∧ (w.queues i).head = some n)) :
    w.mem.link n ≠ ⟨none, none⟩ := by
  have hqueue := h.queue i
  obtain ⟨l₁, l₂, hl⟩ := List.append_of_mem hmem
  rw [hl] at hqueue
  obtain ⟨-, hlink, -⟩ := hqueue.split
  -- a member without links is alone in its queue, which `hsole` excludes
  intro hnull
  rw [hlink] at hnull
  have hl₂ : l₂ = [] := List.head?_eq_none_iff.mp (congrArg Link.next hnull)
  have hl₁ : l₁ = [] := List.getLast?_eq_none_iff.mp (congrArg Link.prev hnull)
  subst hl₁
  subst hl₂
  apply hsole
  constructor
  · rw [← UInt32.toNat_inj, hqueue.count]
    rfl
  · exact hqueue.head

include hn

theorem Good.refuses_of_not_exposed (hex : ¬w.Exposed n) : w.RefusesInUse n := by
  obtain ⟨hsole, hstale⟩ := not_or.mp hex
  have hmember : ∀ i, w.Member i n ↔ n ∈ lists i := fun i => h.member_iff
  have habort : w.Aborts n ↔ ∃ i, w.Member i n := by
    rw [aborts_iff_link h.wf hn]
    constructor
    · intro hlink
      by_contra hnone
      refine hlink (h.loose n hn fun i hi => hnone ⟨i, (hmember i).mpr hi⟩)
    · rintro ⟨i, hi⟩
      exact h.link_ne ((hmember i).mp hi) fun hs => hsole ⟨i, hs⟩
  refine ⟨habort, ?_, ?_⟩
  · intro hfree i
    have hnone : ∀ j, ¬w.Member j n := fun j hj => hfree (habort.mpr ⟨j, hj⟩)
    have hlink : w.mem.link n = ⟨none, none⟩ := by
      by_contra hne
      exact hfree ((aborts_iff_link h.wf hn).mpr hne)
    constructor
    · intro hreach
      have hhead := hreach.eq_of_unreferenced fun a ha => (h.unreferenced hlink ha).1
      rw [(h.queue i).head] at hhead
      exact hnone i ((hmember i).mpr (List.mem_of_mem_head? hhead))
    · intro hreach
      have htail := hreach.eq_of_unreferenced fun a ha => (h.unreferenced hlink ha).2
      by_cases hl : lists i = []
      · -- the tail pointer that a dequeue has left behind
        exact hstale ⟨hnone, i, (h.queue i).count_eq_zero_iff.mpr hl, htail⟩
      · rw [(h.queue i).tail hl] at htail
        exact hnone i ((hmember i).mpr (List.mem_of_mem_getLast? htail))
  · intro hheld ha
    obtain ⟨i, hi⟩ := habort.mp ha
    exact (h.held n hheld).2 i ((hmember i).mp hi)

theorem Good.not_exposed_of_refuses (hr : w.RefusesInUse n) : ¬w.Exposed n := by
  rintro (⟨i, hcount, hhead⟩ | ⟨hnone, i, -, htail⟩)
  · obtain ⟨hmem, hlink⟩ := h.sole hcount hhead
    have habort := hr.aborts_iff.mpr ⟨i, h.member_iff.mpr hmem⟩
    exact (aborts_iff_link h.wf hn).mp habort hlink
  · have hfree : ¬w.Aborts n := by
      intro habort
      obtain ⟨j, hj⟩ := hr.aborts_iff.mp habort
      exact hnone j hj
    apply (hr.unreached hfree i).2
    rw [htail]
    exact .here

end Guard

end Pool

/-- In every state of a run from initialised queues in which no queue of two or more nodes is
initialised again, in either build, the guard is right about a live node exactly when the node is
neither the only one of a queue nor left at the tail of one that was emptied. -/
theorem btQnodeDelete_refuses_iff {b : Build} {fuel : ℕ} (hfuel : 2 ^ 32 ≤ fuel) {m : Mem}
    (hm : ∀ a, ¬m.Live a) {q : ℕ → BtQueue} {maxEl : ℕ → UInt32} {ops : List PoolOp}
    {rs : List (Option Addr)} {w : Pool}
    (hops : ((poolMachine b fuel).restrict NoDrop).Admissible (Pool.init m q maxEl) ops)
    (hrun : (poolMachine b fuel).run (Pool.init m q maxEl) ops = .ok (rs, w)) {n : Addr}
    (hn : w.mem.Live n) : w.RefusesInUse n ↔ ¬w.Exposed n := by
  have hstep : ∀ (s : Pool) (op : PoolOp) (r : Option Addr) (s' : Pool),
      (∃ lists, s.Good lists) → ((poolMachine b fuel).restrict NoDrop).Pre s op →
      ((poolMachine b fuel).restrict NoDrop).step s op = .ok (r, s') →
      ∃ lists, s'.Good lists := by
    rintro s op r s' ⟨lists, h⟩ ⟨hpre, hdrop⟩ hexec
    exact h.exec hfuel hpre hdrop hexec
  rw [← Machine.run_restrict (poolMachine b fuel) NoDrop] at hrun
  obtain ⟨lists, h⟩ :=
    Machine.run_preserves hstep ⟨_, Pool.good_init hm q maxEl⟩ hops hrun
  exact ⟨h.not_exposed_of_refuses hn, h.refuses_of_not_exposed hn⟩

/-! ### A queue of one node -/

/-- One byte of data. -/
def letter : CObj := ⟨[104], by decide⟩

/-- Queues of at most two nodes, in a memory where nothing is live. -/
def emptyPool : Pool := Pool.init Mem.empty (fun _ => ⟨none, none, 0, 0⟩) fun _ => 2

/-- Two nodes in one queue; the older one is taken out and freed, and its block comes back for a
node of another queue. -/
def exchange : List PoolOp :=
  [.enqueue 0 (some 0x1000) letter 1, .enqueue 0 (some 0x2000) letter 1, .dequeue 0,
    .delete 0x1040, .enqueue 1 (some 0x1000) letter 1]

theorem exchange_admissible :
    ((poolMachine .debug (2 ^ 32)).restrict NoDrop).Admissible emptyPool exchange := by
  refine Machine.admissible_cons ⟨⟨by decide, ?_⟩, trivial⟩ rfl <|
    Machine.admissible_cons ⟨⟨by decide, ?_⟩, trivial⟩ rfl <|
    Machine.admissible_cons ⟨trivial, trivial⟩ rfl <|
    Machine.admissible_cons ⟨List.mem_singleton.mpr rfl, trivial⟩ rfl <|
    Machine.admissible_cons ⟨⟨by decide, ?_⟩, trivial⟩ rfl trivial
  · rintro _ ⟨⟩
    exact mallocOk_of_blocksOf [] rfl (by decide) (by decide) (by decide)
  · rintro _ ⟨⟩
    exact mallocOk_of_blocksOf [(0x1040, some ⟨0x1000, nodeSize 1, 0x40⟩)] rfl (by decide)
      (by decide) (by decide)
  · rintro _ ⟨⟩
    exact mallocOk_of_blocksOf [(0x1040, none), (0x2040, some ⟨0x2000, nodeSize 1, 0x40⟩),
      (0x1040, some ⟨0x1000, nodeSize 1, 0x40⟩)] rfl (by decide) (by decide) (by decide)

theorem btQnodeDelete_refuses_iff_exchange : ∃ rs w,
    (poolMachine .debug (2 ^ 32)).run emptyPool exchange = .ok (rs, w) ∧
    (w.RefusesInUse 0x2040 ↔ ¬w.Exposed 0x2040) :=
  ⟨_, _, rfl, btQnodeDelete_refuses_iff (Nat.le_refl _) (fun a ⟨b, hb⟩ => by cases hb)
    exchange_admissible rfl ⟨_, rfl⟩⟩

/-- The only node of a queue is freed while it is linked there, and so is the node that a dequeue
took out of a queue of one while the tail pointer leads to it. -/
theorem btQnodeDelete_frees_linked :
    (∃ rs w, (poolMachine .debug (2 ^ 32)).run emptyPool [.enqueue 0 (some 0x1000) letter 1]
        = .ok (rs, w) ∧ w.mem.Live 0x1040 ∧ w.Member 0 0x1040 ∧ ¬w.Aborts 0x1040 ∧
      ¬w.RefusesInUse 0x1040) ∧
    ∃ rs w, (poolMachine .debug (2 ^ 32)).run emptyPool
        [.enqueue 0 (some 0x1000) letter 1, .dequeue 0] = .ok (rs, w) ∧ w.mem.Live 0x1040 ∧
      (w.queues 0).tail = some 0x1040 ∧ ¬w.Aborts 0x1040 ∧ ¬w.RefusesInUse 0x1040 := by
  constructor
  · refine ⟨_, _, rfl, ⟨_, rfl⟩, ⟨[0x1040], .cons .nil, List.mem_singleton.mpr rfl⟩, ?_, ?_⟩
    · intro habort
      cases habort
    · intro hr
      have habort := hr.aborts_iff.mpr ⟨0, [0x1040], .cons .nil, List.mem_singleton.mpr rfl⟩
      cases habort
  · refine ⟨_, _, rfl, ⟨_, rfl⟩, rfl, ?_, ?_⟩
    · intro habort
      cases habort
    · intro hr
      refine (hr.unreached ?_ 0).2 .here
      intro habort
      cases habort

end Bluetea.Queue
