import Bluetea.Queue.Equiv.Refine

/-!
# No node is lost or owned twice

The ledger of `Good` balances in every state of a run: the nodes allocated are those linked in the
queue, those the caller holds and those freed.  An address may come back after a `free`, so the
three lists are compared with the list of allocations with multiplicity.

`bt_queue_destroy` frees the linked nodes and leaves a queue with `max_el == 0`: a FIFO without
room, which refuses every call until it is initialised again.
-/

namespace Bluetea.Queue

open DoublyLinked Ledger Mem

/-- What a program sees of a queue without room. -/
def Refused : QueueOp → Res → Prop
  | .enqueue .., r => r.ret = none ∧ r.errno = EAGAIN
  | .dequeue, r => r.ret = none ∧ r.errno = EAGAIN
  | _, r => r.ret = none

/-- The world after `bt_queue_destroy` left the memory `m`. -/
def World.destroyed (w : World) (m : Mem) : World :=
  { w with mem := m, q := ⟨none, none, 0, 0⟩ }

section

variable {m₀ : Mem} {w : World} {l : List Addr} {m : Mem}

theorem Destroyed.live_iff {m' : Mem} (h : Destroyed m m' l) (x : Addr) :
    m'.Live x ↔ x ∉ l ∧ m.Live x := by
  unfold Live
  rw [h.blocks]
  by_cases hxl : x ∈ l
  · simp [hxl]
  · simp [hxl]

/-- The linked nodes are booked as freed. -/
theorem Good.destroyed (h : Good m₀ w l) (hd : Destroyed w.mem m l) :
    Good m₀ (w.destroyed m) [] := by
  refine ⟨hd.wf, ⟨rfl, fun hne => absurd rfl hne, trivial, by simp, rfl, Nat.zero_le _⟩, ?_, ?_⟩
  · intro a ha
    show (m.node a).toLink = _
    rw [hd.node]
    exact h.held_link a ha
  · show Balanced m₀.Live m.Live m.allocated m.freed ([] ++ w.held)
    rw [hd.allocated, hd.freed]
    exact h.ledger.free hd.live_iff

/-- A FIFO without room refuses everything and stays empty. -/
theorem refused_of_means {ops : List QueueOp} {rs : List Res}
    (h : rs.Forall₂ Res.Means (Machine.answers (Fifo.step 0) [] (ops.map QueueOp.toFifo)).1) :
    List.Forall₂ Refused ops rs := by
  induction ops generalizing rs with
  | nil =>
    cases h
    exact .nil
  | cons op ops ih =>
    have hstep : (Fifo.step 0 [] op.toFifo).2 = ([] : List (Addr × List UInt8)) := by
      cases op <;> rfl
    rw [List.map_cons, Machine.answers_cons, hstep] at h
    cases h with
    | cons hmeans h =>
      refine .cons ?_ (ih h)
      cases op with
      | enqueue ans data len => exact hmeans
      | dequeue => exact hmeans
      | detach n => exact hmeans
      | delete n => exact hmeans

end

section

variable {m : Mem} (hm : m.WF) (q : BtQueue) (maxEl : UInt32) {fuel : ℕ} {ops : List QueueOp}

include hm

/-- Node conservation in the release build.  In every state of a run of a correct program the ledger
balances: each node that was ever allocated is linked in the queue, held by the caller or freed, and
only one of these, and whatever else is live was live before.  `bt_queue_destroy` passes its counter
check there, frees the linked nodes in order, accesses no others, and leaves a zeroed queue which
refuses every later call. -/
theorem queue_conserves (hfuel : maxEl.toNat < fuel)
    (hops : (queueMachine .ndebug fuel).Admissible (World.init m q maxEl) ops) :
    ∃ rs w l, (queueMachine .ndebug fuel).run (World.init m q maxEl) ops = .ok (rs, w) ∧
      Walk (fun a => (w.mem.node a).next) w.q.head l ∧
      Balanced m.Live w.mem.Live w.mem.allocated w.mem.freed (l ++ w.held) ∧
      ∃ m' es, (btQueueDestroy fuel w.q).run w.mem = .ok (⟨none, none, 0, 0⟩, m') ∧
        m'.allocated = w.mem.allocated ∧ m'.freed = w.mem.freed ++ l ∧
        (∀ a, m'.Live a ↔ a ∉ l ∧ w.mem.Live a) ∧
        (m'.trace = w.mem.trace ++ es ∧ ∀ e ∈ es, e.addr ∈ l) ∧
        (∀ a ∈ w.held, m'.Live a ∧ m'.node a = w.mem.node a) ∧
        ∀ later, (queueMachine .ndebug fuel).Admissible (w.destroyed m') later →
          ∃ rs' w', (queueMachine .ndebug fuel).run (w.destroyed m') later = .ok (rs', w') ∧
            List.Forall₂ Refused later rs' := by
  obtain ⟨rs, w, hrun, -, hsim, hmax⟩ := (Sim.init hm q maxEl).run hfuel hops
  have hgood := hsim.good
  have hle := hgood.queue.le_max
  rw [hmax] at hle
  obtain ⟨m', hdestroy, hd⟩ :=
    btQueueDestroy_spec hgood.wf hgood.queue (lt_of_le_of_lt hle hfuel)
  obtain ⟨es, htouched⟩ := hd.touched
  have hgood' := hgood.destroyed hd
  refine ⟨rs, w, _, hrun, hgood.queue.walk_next, hgood.ledger, m', es, hdestroy, hd.allocated,
    hd.freed, hd.live_iff, htouched, fun a ha => ⟨hgood'.held_live ha, congrFun hd.node a⟩, ?_⟩
  -- the zeroed queue is a queue without room, on which any later run is simulated as well
  intro later hlater
  have hsim' : Sim m (w.destroyed m') [] := ⟨hgood', by simp⟩
  have hzero : (w.destroyed m').q.maxEl.toNat < fuel :=
    Nat.lt_of_le_of_lt (Nat.zero_le _) hfuel
  obtain ⟨rs', w', hrun', hall, -, -⟩ := hsim'.run hzero hlater
  exact ⟨rs', w', hrun', refused_of_means hall⟩

end

theorem queue_conserves_refill : ∃ rs w l,
    (queueMachine .ndebug 3).run (World.init Mem.empty ⟨none, none, 0, 0⟩ 2) refill
      = .ok (rs, w) ∧
    Walk (fun a => (w.mem.node a).next) w.q.head l ∧
    Balanced Mem.empty.Live w.mem.Live w.mem.allocated w.mem.freed (l ++ w.held) ∧
    ∃ m' es, (btQueueDestroy 3 w.q).run w.mem = .ok (⟨none, none, 0, 0⟩, m') ∧
      m'.allocated = w.mem.allocated ∧ m'.freed = w.mem.freed ++ l ∧
      (∀ a, m'.Live a ↔ a ∉ l ∧ w.mem.Live a) ∧
      (m'.trace = w.mem.trace ++ es ∧ ∀ e ∈ es, e.addr ∈ l) ∧
      (∀ a ∈ w.held, m'.Live a ∧ m'.node a = w.mem.node a) ∧
      ∀ later, (queueMachine .ndebug 3).Admissible (w.destroyed m') later →
        ∃ rs' w', (queueMachine .ndebug 3).run (w.destroyed m') later = .ok (rs', w') ∧
          List.Forall₂ Refused later rs' :=
  queue_conserves Mem.wf_empty _ 2 (by decide) refill_admissible

end Bluetea.Queue
