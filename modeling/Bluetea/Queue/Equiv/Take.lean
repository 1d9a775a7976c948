import Bluetea.Queue.Basic
import Bluetea.Queue.Equiv.Node

/-!
# Taking nodes out: dequeue and detach

`IsQueue m q l` is the representation invariant: the nodes `l` are linked in both directions from
`q.head` on, and `q.count` counts them.  `bt_queue_dequeue` does not touch `q.tail`, so when it
takes the last node the tail keeps pointing at it; `IsQueue` therefore says nothing about the
tail of an empty queue, and `IsQueue.Tight` is the stronger invariant that does.

`Taken` is what dequeue and detach have in common: one node leaves the list with both links
cleared, the others keep their order, and nothing outside the queue changes.
-/

namespace Bluetea.Queue

open DoublyLinked Machine Mem

/-- The queue `q` holds the nodes `l`, in this order. -/
structure IsQueue (m : Mem) (q : BtQueue) (l : List Addr) : Prop where
  head : q.head = l.head?
  tail : l ≠ [] → q.tail = l.getLast?
  seg : Seg m.link none l none
  live : ∀ a ∈ l, m.Live a
  count : q.count.toNat = l.length
  le_max : l.length ≤ q.maxEl.toNat

/-- The tail pointer of an empty queue is null as well. -/
def IsQueue.Tight (q : BtQueue) (l : List Addr) : Prop := l = [] → q.tail = none

/-- `a` has left the queue `q` with nodes `l`, which is now `q'` with nodes `l'`. -/
structure Taken (m m' : Mem) (q q' : BtQueue) (a : Addr) (l l' : List Addr) : Prop where
  relinked : m.Relinked m'
  queue : IsQueue m' q' l'
  maxEl : q'.maxEl = q.maxEl
  link : m'.link a = ⟨none, none⟩
  frame : ∀ x, x ∉ l → m'.link x = m.link x

section

variable {m : Mem} {q : BtQueue} {l : List Addr}

namespace IsQueue

theorem nodup (h : IsQueue m q l) : l.Nodup := h.seg.nodup

theorem count_eq_zero_iff (h : IsQueue m q l) : q.count = 0 ↔ l = [] := by
  rw [← List.length_eq_zero_iff, ← h.count, ← UInt32.toNat_inj, UInt32.toNat_zero]

/-- A queue depends on the links and the liveness of its own nodes. -/
theorem congr {m' : Mem} (h : IsQueue m q l) (hlink : ∀ a ∈ l, m'.link a = m.link a)
    (hlive : ∀ a ∈ l, m'.Live a) : IsQueue m' q l :=
  { h with seg := h.seg.congr hlink, live := hlive }

/-- `next` leads from the head through the queue. -/
theorem walk_next (h : IsQueue m q l) : Walk (fun a => (m.node a).next) q.head l := by
  rw [h.head]
  exact h.seg.walk_next

/-- A tight tail is the last node, or null when there is none. -/
theorem tail_eq (h : IsQueue m q l) (ht : IsQueue.Tight q l) : q.tail = l.getLast? := by
  by_cases hl : l = []
  · rw [ht hl, hl]
    rfl
  · exact h.tail hl

/-- `prev` leads from a tight tail back through the queue. -/
theorem walk_prev (h : IsQueue m q l) (ht : IsQueue.Tight q l) :
    Walk (fun a => (m.node a).prev) q.tail l.reverse := by
  rw [h.tail_eq ht]
  exact h.seg.walk_prev

theorem count_sub_one (h : IsQueue m q l) (hl : l ≠ []) :
    (q.count - 1).toNat = l.length - 1 := by
  have hpos := List.length_pos_iff.mpr hl
  have hcount := h.count
  rw [UInt32.toNat_sub_of_le _ _ (by rw [UInt32.le_iff_toNat_le]; simp; omega), h.count]
  rfl

end IsQueue

/-! ### Dequeue -/

theorem run_btQueueDequeue_empty (b : Build) (h : IsQueue m q []) :
    (btQueueDequeue b q).run m = .ok ((none, q), m.setErrno EAGAIN) := by
  have hcount := h.count_eq_zero_iff.mpr rfl
  simp [btQueueDequeue, hcount, setErrno]
  rfl

/-- The links after both links of `a` are cleared. -/
theorem link_clear (m : Mem) (a : Addr) :
    ((m.setPrev a none).setNext a none).link = Function.update m.link a ⟨none, none⟩ := by
  rw [link_setNext, link_setPrev]
  simp

theorem relinked_clear (m : Mem) (a : Addr) :
    m.Relinked ((m.setPrev a none).setNext a none) :=
  (relinked_setPrev m a none).trans (relinked_setNext _ a none)

/-- In a well-formed queue both assertions hold. -/
theorem run_dequeueAsserts (b : Build) {a : Addr} (hm : m.WF) (h : IsQueue m q (a :: l)) :
    ∃ m', (dequeueAsserts b q).run m = .ok ((), m') ∧ m.Looked m' := by
  have hhead : q.head = some a := h.head
  have hprev : (m.node a).prev = none := congrArg Link.prev h.seg.1
  have ha := h.live a (List.mem_cons_self ..)
  cases b with
  | ndebug => exact ⟨m, rfl, .refl m⟩
  | debug =>
    -- the second assertion reads the head
    refine ⟨m.log (.read a), ?_, looked_read m a⟩
    rw [dequeueAsserts, hhead]
    simp only [btAssert, Option.isSome_some, not_true_eq_false, and_false, ↓reduceIte, pure_bind]
    rw [run_bind_ok (run_load hm ha), hprev]
    rfl

/-- The only node: nothing is relinked, and `q->tail` keeps pointing at it. -/
theorem dequeueHead_only {a : Addr} (hm : m.WF) (h : IsQueue m q [a]) :
    ∃ m' q', (dequeueHead q).run m = .ok ((some a, q'), m') ∧
      Taken m m' q q' a [a] [] ∧ q'.tail = q.tail := by
  have hhead : q.head = some a := h.head
  have hnext : (m.node a).next = none := congrArg Link.next h.seg.1
  have ha := h.live a (List.mem_cons_self ..)
  have hcount := h.count_sub_one (List.cons_ne_nil a [])
  have hlook := looked_read m a
  have hm1 := hlook.relinked.wf hm
  -- `q->head` becomes NULL, but `q->tail` goes on pointing to the node taken out
  refine ⟨((m.log (.read a)).setPrev a none).setNext a none,
    ⟨none, q.tail, q.count - 1, q.maxEl⟩, ?_, ⟨?_, ?_, rfl, ?_, ?_⟩, rfl⟩
  · rw [dequeueHead, hhead, run_bind_ok (run_load hm ha), hnext]
    simp only [Option.isSome_none, Bool.false_eq_true, ↓reduceIte]
    rw [run_bind_ok (run_store_prev hm1 ha _),
      run_bind_ok (run_store_next ((relinked_setPrev _ _ _).wf hm1) ha _)]
    rfl
  · exact hlook.relinked.trans (relinked_clear _ a)
  · exact ⟨rfl, fun hne => absurd rfl hne, trivial, fun x hx => by simp at hx,
      by simpa using hcount, Nat.zero_le _⟩
  · rw [link_clear]
    simp
  · intro x hx
    rw [link_clear, Function.update_of_ne (by simpa using hx), hlook.link]

/-- Otherwise the second node `b` becomes the first, which changes its `prev` link and no other. -/
theorem dequeueHead_more {a b : Addr} (hm : m.WF) (h : IsQueue m q (a :: b :: l)) :
    ∃ m' q', (dequeueHead q).run m = .ok ((some a, q'), m') ∧
      Taken m m' q q' a (a :: b :: l) (b :: l) ∧ q'.tail = q.tail := by
  have hhead : q.head = some a := h.head
  have hnext : (m.node a).next = some b := congrArg Link.next h.seg.1
  have ha := h.live a (List.mem_cons_self ..)
  have hb := h.live b (by simp)
  have hnodup := List.nodup_cons.mp h.nodup
  have hcount := h.count_sub_one (List.cons_ne_nil a (b :: l))
  have hle := h.le_max
  have hlook := looked_read m a
  have hm1 := hlook.relinked.wf hm
  have hm2 := (relinked_setPrev _ b none).wf hm1
  have hab : a ≠ b := by
    rintro rfl
    exact hnodup.1 (List.mem_cons_self ..)
  -- the writes are to the links of `a`, and to the one of `b` that points back
  have hlink : ∀ x, x ≠ a → x ≠ b →
      ((((m.log (.read a)).setPrev b none).setPrev a none).setNext a none).link x = m.link x := by
    intro x hxa hxb
    rw [link_clear, Function.update_of_ne hxa, link_setPrev, Function.update_of_ne hxb, hlook.link]
  refine ⟨(((m.log (.read a)).setPrev b none).setPrev a none).setNext a none,
    ⟨some b, q.tail, q.count - 1, q.maxEl⟩, ?_, ⟨?_, ?_, rfl, ?_, ?_⟩, rfl⟩
  · rw [dequeueHead, hhead, run_bind_ok (run_load hm ha), hnext]
    simp only [Option.isSome_some, ↓reduceIte]
    rw [run_bind_ok (run_store_prev hm1 hb _), run_bind_ok (run_store_prev hm2 ha _),
      run_bind_ok (run_store_next ((relinked_setPrev _ _ _).wf hm2) ha _)]
    rfl
  · exact (hlook.relinked.trans (relinked_setPrev _ b none)).trans (relinked_clear _ a)
  · refine ⟨rfl, ?_, ?_, fun x hx => h.live x (List.mem_cons_of_mem _ hx), ?_, ?_⟩
    · intro _
      exact h.tail (List.cons_ne_nil _ _)
    · -- `b` is the first one now, the links behind it are as they were
      refine h.seg.2.setFirst (fun x hx => ?_) ?_
      · have hnb := (List.nodup_cons.mp hnodup.2).1
        exact hlink x (fun hxa => hnodup.1 (by simp [← hxa, hx])) (fun hxb => hnb (hxb ▸ hx))
      · rw [link_clear, Function.update_of_ne hab.symm, link_setPrev, Function.update_self,
          hlook.link]
    · simpa using hcount
    · simp only [List.length_cons] at hle ⊢
      omega
  · rw [link_clear]
    simp
  · intro x hx
    simp only [List.mem_cons, not_or] at hx
    exact hlink x hx.1 hx.2.1

theorem dequeueHead_spec {a : Addr} (hm : m.WF) (h : IsQueue m q (a :: l)) :
    ∃ m' q', (dequeueHead q).run m = .ok ((some a, q'), m') ∧
      Taken m m' q q' a (a :: l) l ∧ q'.tail = q.tail := by
  cases l with
  | nil => exact dequeueHead_only hm h
  | cons b l => exact dequeueHead_more hm h

theorem Taken.of_looked {m₁ m' : Mem} {q' : BtQueue} {a : Addr} {l' : List Addr}
    (hlook : m.Looked m₁) (h : Taken m₁ m' q q' a l l') : Taken m m' q q' a l l' :=
  { h with
    relinked := hlook.relinked.trans h.relinked
    frame := fun x hx => by rw [h.frame x hx, hlook.link] }

theorem IsQueue.of_looked {m' : Mem} (hlook : m.Looked m') (h : IsQueue m q l) : IsQueue m' q l :=
  h.congr (fun _ _ => by rw [hlook.link]) fun a ha => hlook.relinked.live_iff.mpr (h.live a ha)

/-- Dequeue takes the first node and leaves the tail pointer alone. -/
theorem btQueueDequeue_spec (b : Build) {a : Addr} (hm : m.WF) (h : IsQueue m q (a :: l)) :
    ∃ m' q', (btQueueDequeue b q).run m = .ok ((some a, q'), m') ∧
      Taken m m' q q' a (a :: l) l ∧ q'.tail = q.tail := by
  have hne : q.count ≠ 0 := by
    intro h0
    exact List.cons_ne_nil a l (h.count_eq_zero_iff.mp h0)
  obtain ⟨m₁, hasserts, hlook⟩ := run_dequeueAsserts b hm h
  obtain ⟨m', q', hrun, htaken, htail⟩ :=
    dequeueHead_spec (hlook.relinked.wf hm) (h.of_looked hlook)
  refine ⟨m', q', ?_, htaken.of_looked hlook, htail⟩
  rw [btQueueDequeue, if_neg hne, run_bind_ok hasserts, hrun]

end

end Bluetea.Queue
