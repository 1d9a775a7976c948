import Bluetea.Queue.Equiv.Step
import Bluetea.Machine.Bounded

/-!
# The queue is a bounded FIFO

`Sim m₀ w items` relates a program's state to the list of items in its queue, each the node's
address with its payload.  Every call of a correct caller answers what the same operation of
`Fifo.step` answers, and leads to related states (`exec_simulates`); so does every run
(`queue_refines_fifo`).

In the debug build a call to enqueue is covered when the tail pointer of the empty queue is null.
-/

namespace Bluetea.Queue

open DoublyLinked Mem

/-! ### The two systems side by side -/

/-- The operation on the list of items; the item of a new node is the first `len` bytes of the
data. -/
def QueueOp.toFifo : QueueOp → Fifo.Op Addr (List UInt8)
  | .enqueue ans data len => .enqueue (data.bytes.take len.toNat) (ans.map userOf)
  | .dequeue => .dequeue
  | .detach n => .detach n
  | .delete _ => .skip

/-- The `errno` of a failed operation. -/
def errnoOf : Fifo.Err → Int
  | .full => EAGAIN
  | .noMemory => ENOMEM
  | .empty => EAGAIN

/-- What a caller sees when the operation on the list answers so. -/
def Res.Means (r : Res) : Except Fifo.Err (Option (Addr × List UInt8)) → Prop
  | .ok none => r.ret = none
  | .ok (some (a, v)) => r.ret = some a ∧ ∃ len, r.payload = some (len, v) ∧ len.toNat = v.length
  | .error e => r.ret = none ∧ r.errno = errnoOf e

/-- The queue of `w` holds `items`. -/
structure Sim (m₀ : Mem) (w : World) (items : List (Addr × List UInt8)) : Prop where
  good : Good m₀ w (items.map Prod.fst)
  holds : ∀ it ∈ items, w.mem.Holds it.1 it.2

/-- What a call does besides the answer: `l` and `l'` are the nodes before and after it. -/
structure Stepped (op : QueueOp) (w w' : World) (l l' : List Addr) : Prop where
  maxEl : w'.q.maxEl = w.q.maxEl
  tight : op ≠ .dequeue → IsQueue.Tight w.q l → IsQueue.Tight w'.q l'
  dequeue_tail : op = .dequeue → w'.q.tail = w.q.tail
  idle : l = [] → l' = [] → w'.q = w.q

theorem means_observe {m : Mem} {a : Addr} {v : List UInt8} (h : m.Holds a v) :
    (observe (some a) m).Means (.ok (some (a, v))) := by
  rw [observe_of_holds h]
  exact ⟨rfl, _, rfl, h.len⟩

/-- A call that leaves the structure and the list of nodes alone. -/
theorem Stepped.of_q_eq {op : QueueOp} {w w' : World} {l : List Addr} (hq : w'.q = w.q) :
    Stepped op w w' l l :=
  { maxEl := by rw [hq]
    tight := fun _ ht => by rwa [hq]
    dequeue_tail := fun _ => by rw [hq]
    idle := fun _ _ => hq }

section

variable {m₀ : Mem} {w : World} {items : List (Addr × List UInt8)} {b : Build} {fuel : ℕ}

theorem Sim.setErrno (h : Sim m₀ w items) (e : Int) :
    Sim m₀ { w with mem := w.mem.setErrno e } items :=
  ⟨h.good.setErrno e, fun it hit => ⟨(h.holds it hit).len, (h.holds it hit).data⟩⟩

/-- What it means that a call agrees with an operation on the list. -/
def Agrees (m₀ : Mem) (b : Build) (fuel : ℕ) (w : World) (items : List (Addr × List UInt8))
    (op : QueueOp) : Prop :=
  ∃ r w', exec b fuel w op = .ok (r, w') ∧
    r.Means (Fifo.step w.q.maxEl.toNat items op.toFifo).1 ∧
    Sim m₀ w' (Fifo.step w.q.maxEl.toNat items op.toFifo).2 ∧
    Stepped op w w' (items.map Prod.fst)
      ((Fifo.step w.q.maxEl.toNat items op.toFifo).2.map Prod.fst)

theorem agrees_enqueue (h : Sim m₀ w items) {ans : Option UInt64} {data : CObj} {len : UInt64}
    (hpre : Owed w (.enqueue ans data len))
    (htight : b = .debug → ans.isSome → IsQueue.Tight w.q (items.map Prod.fst)) :
    Agrees m₀ b fuel w items (.enqueue ans data len) := by
  have hlen : (items.map Prod.fst).length = items.length := List.length_map _
  unfold Agrees
  by_cases hfull : w.q.maxEl.toNat ≤ items.length
  · -- full: the allocator is not even asked
    simp only [QueueOp.toFifo, Fifo.step, hfull, ↓reduceIte]
    exact ⟨_, _, exec_enqueue_full b fuel h.good ans (hlen ▸ hfull), ⟨rfl, rfl⟩, h.setErrno _,
      .of_q_eq rfl⟩
  · have hlt : (items.map Prod.fst).length < w.q.maxEl.toNat := by omega
    simp only [QueueOp.toFifo, Fifo.step, hfull, ↓reduceIte]
    cases ans with
    | none =>
      exact ⟨_, _, exec_enqueue_noMemory b fuel h.good hlt, ⟨rfl, rfl⟩, h.setErrno _, .of_q_eq rfl⟩
    | some orig =>
      obtain ⟨w', hexec, hgood, htail, hmax, hnew, hold⟩ :=
        exec_enqueue_ok b fuel h.good hlt hpre fun hb => htight hb rfl
      refine ⟨_, w', hexec, means_observe hnew, ⟨?_, ?_⟩, hmax, ?_, ?_, ?_⟩
      · simpa using hgood
      · -- the old items keep their payload, the new one has its own
        intro it hit
        rcases List.mem_append.mp hit with hit | hit
        · exact hold _ _ (List.mem_append_left _ (List.mem_map_of_mem hit)) (h.holds it hit)
        · obtain rfl := List.mem_singleton.mp hit
          exact hnew
      · exact fun _ _ hnil => by simp at hnil
      · exact fun hop => by cases hop
      · exact fun _ hnil => by simp at hnil

theorem agrees_dequeue (h : Sim m₀ w items) : Agrees m₀ b fuel w items .dequeue := by
  unfold Agrees
  cases items with
  | nil =>
    exact ⟨_, _, exec_dequeue_empty b fuel h.good, ⟨rfl, rfl⟩, h.setErrno _, .of_q_eq rfl⟩
  | cons it items =>
    obtain ⟨w', hexec, hgood, -, htail, hmax, hold⟩ := exec_dequeue_ok b fuel h.good
    refine ⟨_, w', hexec, means_observe (hold _ _ (h.holds it (List.mem_cons_self ..))),
      ⟨hgood, fun x hx => hold _ _ (h.holds x (List.mem_cons_of_mem _ hx))⟩, hmax, ?_, ?_, ?_⟩
    · exact fun hop => absurd rfl hop
    · exact fun _ => htail
    · exact fun hnil => by simp at hnil

theorem agrees_detach (h : Sim m₀ w items) {n : Addr} (hpre : Owed w (.detach n))
    (hfuel : w.q.maxEl.toNat < fuel) : Agrees m₀ b fuel w items (.detach n) := by
  -- the caller names a member, which has one place in the list
  obtain ⟨it, hit, rfl⟩ := List.mem_map.mp (h.good.member_iff.mp hpre)
  obtain ⟨it₁, it₂, rfl⟩ := List.append_of_mem hit
  have hgood := h.good
  have hnodup := (List.nodup_append.mp hgood.nodup).1
  rw [List.map_append, List.map_cons] at hgood
  obtain ⟨w', hexec, hgood', -, htail, hmax, hold⟩ := exec_detach_ok b hgood hfuel
  have hstep : Fifo.step w.q.maxEl.toNat (it₁ ++ it :: it₂) (QueueOp.detach it.1).toFifo
      = (.ok (some it), it₁ ++ it₂) := Fifo.step_detach hnodup
  unfold Agrees
  rw [hstep]
  refine ⟨_, w', hexec, means_observe (hold _ _ (h.holds it hit)), ⟨?_, ?_⟩, hmax, ?_, ?_, ?_⟩
  · simpa using hgood'
  · intro x hx
    refine hold _ _ (h.holds x ?_)
    rcases List.mem_append.mp hx with hx | hx
    · exact List.mem_append_left _ hx
    · exact List.mem_append_right _ (List.mem_cons_of_mem _ hx)
  · intro _ _ hnil
    rw [htail, ← List.map_append, hnil]
    rfl
  · exact fun hop => by cases hop
  · exact fun hnil => by simp at hnil

theorem agrees_delete (h : Sim m₀ w items) {n : Addr} (hpre : Owed w (.delete n)) :
    Agrees m₀ b fuel w items (.delete n) := by
  obtain ⟨w', hexec, hgood, -, hq, hold⟩ := exec_delete_ok b fuel h.good hpre
  exact ⟨_, w', hexec, rfl, ⟨hgood, fun it hit => hold _ _ (h.holds it hit)⟩, .of_q_eq hq⟩

/-- The step lemma: one call of a correct caller agrees with one operation on the list. -/
theorem exec_simulates (h : Sim m₀ w items) {op : QueueOp} (hpre : Owed w op)
    (hfuel : w.q.maxEl.toNat < fuel)
    (htight : b = .debug → ∀ orig data len, op = .enqueue (some orig) data len →
      IsQueue.Tight w.q (items.map Prod.fst)) :
    Agrees m₀ b fuel w items op := by
  cases op with
  | enqueue ans data len =>
    refine agrees_enqueue h hpre fun hb hans => ?_
    obtain ⟨orig, rfl⟩ := Option.isSome_iff_exists.mp hans
    exact htight hb orig data len rfl
  | dequeue => exact agrees_dequeue h
  | detach n => exact agrees_detach h hpre hfuel
  | delete n => exact agrees_delete h hpre

end

/-! ### Runs -/

/-- The run lemma: from related states on, the answers of a run are those of the list, and the
states at its end are related. -/
theorem Sim.run {m₀ : Mem} {w : World} {items : List (Addr × List UInt8)} {fuel : ℕ} {ops : List QueueOp}
    (h : Sim m₀ w items) (hfuel : w.q.maxEl.toNat < fuel)
    (hops : (queueMachine .ndebug fuel).Admissible w ops) :
    ∃ rs w', (queueMachine .ndebug fuel).run w ops = .ok (rs, w') ∧
      rs.Forall₂ Res.Means
        (Machine.answers (Fifo.step w.q.maxEl.toNat) items (ops.map QueueOp.toFifo)).1 ∧
      Sim m₀ w' (Machine.answers (Fifo.step w.q.maxEl.toNat) items (ops.map QueueOp.toFifo)).2 ∧
      w'.q.maxEl = w.q.maxEl := by
  have hstep : ∀ (w₁ : World) (items₁ : List (Addr × List UInt8)) (op : QueueOp),
      (Sim m₀ w₁ items₁ ∧ w₁.q.maxEl = w.q.maxEl) → (queueMachine .ndebug fuel).Pre w₁ op →
      ∃ r w₂, (queueMachine .ndebug fuel).step w₁ op = .ok (r, w₂) ∧
        r.Means (Fifo.step w.q.maxEl.toNat items₁ op.toFifo).1 ∧
        (Sim m₀ w₂ (Fifo.step w.q.maxEl.toNat items₁ op.toFifo).2 ∧ w₂.q.maxEl = w.q.maxEl) := by
    rintro w₁ items₁ op ⟨hsim, hmax⟩ hpre
    -- `max_el` never changes, so the capacity of the list is the same all along
    rw [← hmax] at hfuel ⊢
    obtain ⟨r, w₂, hexec, hmeans, hsim', hs⟩ :=
      exec_simulates (b := .ndebug) hsim hpre hfuel fun hb => by cases hb
    exact ⟨r, w₂, hexec, hmeans, hsim', hs.maxEl⟩
  rw [Machine.answers_map]
  exact Machine.run_simulates hstep ⟨h, rfl⟩ hops

section

variable {m : Mem} (hm : m.WF) (q : BtQueue) (maxEl : UInt32) {fuel : ℕ}

include hm

theorem Sim.init : Sim m (World.init m q maxEl) [] :=
  ⟨Good.init hm q maxEl, by simp⟩

/-- In the release build every run of a correct program from `bt_queue_init` on answers as a FIFO
of at most `max_el` items does.  At its end `bt_queue_count` is the number of items, the walk of
`for_each_bt_queue_head` visits their nodes in order, and each node holds its item. -/
theorem queue_refines_fifo (hfuel : maxEl.toNat < fuel) {ops : List QueueOp}
    (hops : (queueMachine .ndebug fuel).Admissible (World.init m q maxEl) ops) :
    ∃ rs w m' items,
      (queueMachine .ndebug fuel).run (World.init m q maxEl) ops = .ok (rs, w) ∧
      rs.Forall₂ Res.Means
        (Machine.answers (Fifo.step maxEl.toNat) [] (ops.map QueueOp.toFifo)).1 ∧
      (Machine.answers (Fifo.step maxEl.toNat) [] (ops.map QueueOp.toFifo)).2 = items ∧
      (btQueueCount w.q).toNat = items.length ∧
      (forEachBtQueueHead fuel w.q).run w.mem = .ok (items.map Prod.fst, m') ∧
      ∀ it ∈ items, w.mem.Holds it.1 it.2 := by
  obtain ⟨rs, w, hrun, hall, hsim, hmax⟩ := (Sim.init hm q maxEl).run hfuel hops
  have hqueue := hsim.good.queue
  have hle := hqueue.le_max
  rw [hmax] at hle
  obtain ⟨m', hwalk, -⟩ := forEachBtQueueHead_spec hsim.good.wf hqueue (lt_of_le_of_lt hle hfuel)
  refine ⟨rs, w, m', _, hrun, hall, rfl, ?_, hwalk, hsim.holds⟩
  exact hqueue.count.trans (List.length_map _)

end

/-- Two bytes of data. -/
def sample : CObj := ⟨[104, 105], by decide⟩

/-- A program that empties its queue, frees the node, fills the queue again, also with a block at
the same address, and takes out the older of two nodes. -/
def refill : List QueueOp :=
  [.enqueue (some 0x1000) sample 2, .dequeue, .dequeue, .delete 0x1040,
    .enqueue (some 0x1000) sample 1, .enqueue none sample 2, .enqueue (some 0x2000) sample 2,
    .enqueue (some 0x3000) sample 2, .detach 0x1040]

theorem refill_admissible :
    (queueMachine .ndebug 3).Admissible (World.init Mem.empty ⟨none, none, 0, 0⟩ 2) refill := by
  refine Machine.admissible_cons ⟨by decide, ?_⟩ rfl <|
    Machine.admissible_cons trivial rfl <| Machine.admissible_cons trivial rfl <|
    Machine.admissible_cons (List.mem_singleton.mpr rfl) rfl <|
    Machine.admissible_cons ⟨by decide, ?_⟩ rfl <|
    Machine.admissible_cons ⟨by decide, fun _ h => by cases h⟩ rfl <|
    Machine.admissible_cons ⟨by decide, ?_⟩ rfl <|
    Machine.admissible_cons ⟨by decide, ?_⟩ rfl <|
    Machine.admissible_cons ⟨[0x1040, 0x2040], .cons (.cons .nil), by decide⟩ rfl trivial
  · rintro _ ⟨⟩
    exact mallocOk_of_blocksOf [] rfl (by decide) (by decide) (by decide)
  · rintro _ ⟨⟩
    exact mallocOk_of_blocksOf [(0x1040, none), (0x1040, some ⟨0x1000, nodeSize 2, 0x40⟩)] rfl
      (by decide) (by decide) (by decide)
  · rintro _ ⟨⟩
    exact mallocOk_of_blocksOf [(0x1040, some ⟨0x1000, nodeSize 1, 0x40⟩), (0x1040, none),
      (0x1040, some ⟨0x1000, nodeSize 2, 0x40⟩)] rfl (by decide) (by decide) (by decide)
  · rintro _ ⟨⟩
    exact mallocOk_of_blocksOf [(0x2040, some ⟨0x2000, nodeSize 2, 0x40⟩),
      (0x1040, some ⟨0x1000, nodeSize 1, 0x40⟩), (0x1040, none),
      (0x1040, some ⟨0x1000, nodeSize 2, 0x40⟩)] rfl (by decide) (by decide) (by decide)

theorem queue_refines_fifo_refill : ∃ rs w m' items,
    (queueMachine .ndebug 3).run (World.init Mem.empty ⟨none, none, 0, 0⟩ 2) refill
      = .ok (rs, w) ∧
    rs.Forall₂ Res.Means (Machine.answers (Fifo.step 2) [] (refill.map QueueOp.toFifo)).1 ∧
    (Machine.answers (Fifo.step 2) [] (refill.map QueueOp.toFifo)).2 = items ∧
    (btQueueCount w.q).toNat = items.length ∧
    (forEachBtQueueHead 3 w.q).run w.mem = .ok (items.map Prod.fst, m') ∧
    ∀ it ∈ items, w.mem.Holds it.1 it.2 :=
  queue_refines_fifo Mem.wf_empty _ 2 (by decide) refill_admissible

end Bluetea.Queue
