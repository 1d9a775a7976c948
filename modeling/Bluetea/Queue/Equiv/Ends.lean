import Bluetea.Queue.Equiv.Refine

/-!
# The two ends of the queue

`bt_queue_dequeue` never resets `q->tail`, so the dequeue that takes the last node leaves an
empty queue with a tail.  Two properties of whole runs depend on it.

* The representation invariant (`World.RepOk`) holds in every state of a run, in either build, as
  long as no dequeue is issued on a queue of one node; such a dequeue breaks it
  (`queue_repOk`).
* The debug build stops at `assert(q->tail == NULL)` in the first enqueue after such a dequeue that
  gets memory.  No other check of the library ever stops a correct program, `bt_queue_destroy` at
  the end included (`queue_debug_safe`).

`bt_qnode_detach` resets both ends, so taking out the last node that way does no harm.
-/

namespace Bluetea.Queue

open DoublyLinked Mem

/-! ### The representation invariant -/

/-- `n` can be reached from the head or the tail by following links. -/
inductive World.Reachable (w : World) : Addr → Prop
  | head {n : Addr} : w.q.head = some n → Reachable w n
  | tail {n : Addr} : w.q.tail = some n → Reachable w n
  | next {a n : Addr} : Reachable w a → (w.mem.node a).next = some n → Reachable w n
  | prev {a n : Addr} : Reachable w a → (w.mem.node a).prev = some n → Reachable w n

/-- The representation invariant of `bt_queue_t`. -/
structure World.RepOk (w : World) : Prop where
  /-- `next` leads from the head to null in `count` steps, `prev` from the tail the same way
  back. -/
  walks : ∃ l, Walk (fun a => (w.mem.node a).next) w.q.head l ∧
    Walk (fun a => (w.mem.node a).prev) w.q.tail l.reverse ∧ l.length = w.q.count.toNat
  head_iff_tail : w.q.head = none ↔ w.q.tail = none
  head_iff_count : w.q.head = none ↔ w.q.count = 0
  le_max : w.q.count ≤ w.q.maxEl
  /-- The nodes that were taken out are out. -/
  held : ∀ n ∈ w.held, (w.mem.node n).next = none ∧ (w.mem.node n).prev = none ∧ ¬w.Reachable n

section

variable {m₀ : Mem} {w w' : World} {l l' : List Addr} {items : List (Addr × List UInt8)} {b : Build}
  {fuel : ℕ} {op : QueueOp}

/-- Links never lead out of a tight queue. -/
theorem Good.mem_of_reachable (h : Good m₀ w l) (ht : IsQueue.Tight w.q l) {n : Addr}
    (hn : w.Reachable n) : n ∈ l := by
  induction hn with
  | head hn =>
    rw [h.queue.head] at hn
    exact List.mem_of_head? hn
  | tail hn =>
    rw [h.queue.tail_eq ht] at hn
    exact List.mem_of_getLast? hn
  -- a walk that ends at null holds the next node after each of its nodes
  | next _ hn ih => exact h.queue.walk_next.mem_of_mem ih hn
  | prev _ hn ih =>
    exact List.mem_reverse.mp ((h.queue.walk_prev ht).mem_of_mem (List.mem_reverse.mpr ih) hn)

theorem Good.repOk (h : Good m₀ w l) (ht : IsQueue.Tight w.q l) : w.RepOk := by
  have hhead : w.q.head = none ↔ l = [] := by rw [h.queue.head, List.head?_eq_none_iff]
  refine ⟨⟨l, h.queue.walk_next, h.queue.walk_prev ht, h.queue.count.symm⟩, ?_, ?_, ?_, ?_⟩
  · rw [hhead, h.queue.tail_eq ht, List.getLast?_eq_none_iff]
  · rw [hhead, h.queue.count_eq_zero_iff]
  · rw [UInt32.le_iff_toNat_le, h.queue.count]
    exact h.queue.le_max
  · intro n hn
    have hlink := h.held_link n hn
    have hout : n ∉ l := fun hnl => (List.nodup_append.mp h.nodup).2.2 n hnl n hn rfl
    exact ⟨congrArg Link.next hlink, congrArg Link.prev hlink,
      fun hr => hout (h.mem_of_reachable ht hr)⟩

/-- Taking the last node with dequeue leaves the tail behind. -/
theorem exec_dequeue_last (h : Good m₀ w l) (hone : w.q.count = 1) :
    ∃ r w', exec b fuel w .dequeue = .ok (r, w') ∧ Good m₀ w' [] ∧ w'.q.tail ≠ none := by
  have hlen : l.length = 1 := by rw [← h.queue.count, hone]; rfl
  obtain ⟨a, rfl⟩ := List.length_eq_one_iff.mp hlen
  obtain ⟨w', hexec, hgood, -, htail, -, -⟩ := exec_dequeue_ok b fuel h
  refine ⟨_, w', hexec, hgood, ?_⟩
  rw [htail, h.queue.tail (by simp)]
  simp

/-- The only way to lose tightness. -/
theorem Stepped.tight_of (hs : Stepped op w w' l l') (h : Good m₀ w l)
    (hl' : op = .dequeue → l' = l.tail) (hop : op = .dequeue → w.q.count ≠ 1)
    (ht : IsQueue.Tight w.q l) : IsQueue.Tight w'.q l' := by
  by_cases hdeq : op = .dequeue
  · -- a dequeue that leaves the list empty found it empty, or took its only node
    intro hnil
    have htail := hl' hdeq
    rw [hnil] at htail
    cases l with
    | nil => rw [hs.idle rfl hnil, ht rfl]
    | cons a l =>
      have hcount := h.queue.count
      rw [List.tail_cons] at htail
      rw [← htail] at hcount
      exact absurd (UInt32.toNat_inj.mp hcount) (hop hdeq)
  · exact hs.tight hdeq ht

theorem fifo_step_dequeue (cap : ℕ) (items : List (Addr × List UInt8)) :
    (Fifo.step cap items QueueOp.dequeue.toFifo).2 = items.tail := by
  cases items <;> rfl

/-- The step lemma: a call that is not a dequeue of the last node keeps the tail tight. -/
theorem exec_tight (h : Sim m₀ w items) (ht : IsQueue.Tight w.q (items.map Prod.fst))
    (hpre : Owed w op) (hfuel : w.q.maxEl.toNat < fuel) (hop : op = .dequeue → w.q.count ≠ 1) :
    ∃ r w' items', exec b fuel w op = .ok (r, w') ∧ Sim m₀ w' items' ∧
      w'.q.maxEl = w.q.maxEl ∧ IsQueue.Tight w'.q (items'.map Prod.fst) := by
  obtain ⟨r, w', hexec, -, hsim, hs⟩ :=
    exec_simulates (b := b) h hpre hfuel fun _ _ _ _ _ => ht
  refine ⟨r, w', _, hexec, hsim, hs.maxEl, hs.tight_of h.good ?_ hop ht⟩
  rintro rfl
  rw [fifo_step_dequeue, List.map_tail]

end

/-! ### Runs that keep the invariant -/

/-- No dequeue of the last node. -/
def KeepsLast (w : World) (op : QueueOp) : Prop := op = .dequeue → w.q.count ≠ 1

section

variable (b : Build) {m : Mem} (hm : m.WF) (q : BtQueue) (maxEl : UInt32) {fuel : ℕ}
  {ops : List QueueOp}

include hm

/-- In either build, a run of a correct program that issues no dequeue on a queue of one node ends
in a state where the representation invariant holds.  A dequeue issued there on a queue of one
node breaks it. -/
theorem queue_repOk (hfuel : maxEl.toNat < fuel)
    (hops : ((queueMachine b fuel).restrict KeepsLast).Admissible
      (World.init m q maxEl) ops) :
    ∃ rs w, (queueMachine b fuel).run (World.init m q maxEl) ops = .ok (rs, w) ∧
      w.RepOk ∧ w.q.maxEl = maxEl ∧
      (w.q.count = 1 → ∃ r w', exec b fuel w .dequeue = .ok (r, w') ∧ ¬w'.RepOk) := by
  have hstep : ∀ (w : World) (op : QueueOp),
      (∃ items, Sim m w items ∧ w.q.maxEl = maxEl ∧ IsQueue.Tight w.q (items.map Prod.fst)) →
      ((queueMachine b fuel).restrict KeepsLast).Pre w op →
      ∃ r w', (queueMachine b fuel).step w op = .ok (r, w') ∧
        ∃ items, Sim m w' items ∧ w'.q.maxEl = maxEl ∧
          IsQueue.Tight w'.q (items.map Prod.fst) := by
    rintro w op ⟨items, hsim, rfl, ht⟩ ⟨hpre, hkeeps⟩
    obtain ⟨r, w', items', hexec, hsim', hmax, ht'⟩ := exec_tight hsim ht hpre hfuel hkeeps
    exact ⟨r, w', hexec, items', hsim', hmax, ht'⟩
  obtain ⟨rs, w, hrun, items, hsim, hmax, ht⟩ :=
    Machine.run_invariant hstep ⟨[], Sim.init hm q maxEl, rfl, fun _ => rfl⟩ hops
  rw [Machine.run_restrict] at hrun
  refine ⟨rs, w, hrun, hsim.good.repOk ht, hmax, fun hone => ?_⟩
  obtain ⟨r, w', hexec, hgood, htail⟩ := exec_dequeue_last hsim.good hone
  exact ⟨r, w', hexec, fun hrep => htail (hrep.head_iff_tail.mp hgood.queue.head)⟩

end

/-- A program that takes its last node out with detach and then fills the queue again. -/
def shuffle : List QueueOp :=
  [.enqueue (some 0x1000) sample 2, .enqueue (some 0x2000) sample 2, .dequeue, .detach 0x2040,
    .delete 0x1040, .enqueue (some 0x1000) sample 1]

/-- What the caller owes in `shuffle`, whatever else it promises. -/
theorem shuffle_owed : (queueMachine .debug 3).Admissible
    (World.init Mem.empty ⟨none, none, 0, 0⟩ 2) shuffle := by
  refine Machine.admissible_cons ⟨by decide, ?_⟩ rfl <|
    Machine.admissible_cons ⟨by decide, ?_⟩ rfl <|
    Machine.admissible_cons trivial rfl <|
    Machine.admissible_cons ⟨[0x2040], .cons .nil, by decide⟩ rfl <|
    Machine.admissible_cons (List.mem_cons_of_mem _ (List.mem_singleton.mpr rfl)) rfl <|
    Machine.admissible_cons ⟨by decide, ?_⟩ rfl trivial
  · rintro _ ⟨⟩
    exact mallocOk_of_blocksOf [] rfl (by decide) (by decide) (by decide)
  · rintro _ ⟨⟩
    exact mallocOk_of_blocksOf [(0x1040, some ⟨0x1000, nodeSize 2, 0x40⟩)] rfl
      (by decide) (by decide) (by decide)
  · rintro _ ⟨⟩
    exact mallocOk_of_blocksOf [(0x1040, none), (0x2040, some ⟨0x2000, nodeSize 2, 0x40⟩),
      (0x1040, some ⟨0x1000, nodeSize 2, 0x40⟩)] rfl (by decide) (by decide) (by decide)

theorem queue_repOk_shuffle : ∃ rs w,
    (queueMachine .debug 3).run (World.init Mem.empty ⟨none, none, 0, 0⟩ 2) shuffle
      = .ok (rs, w) ∧
    w.RepOk ∧ w.q.maxEl = 2 ∧
    (w.q.count = 1 → ∃ r w', exec .debug 3 w .dequeue = .ok (r, w') ∧ ¬w'.RepOk) := by
  refine queue_repOk .debug Mem.wf_empty _ 2 (by decide)
    (Machine.admissible_restrict shuffle_owed ?_)
  have hother : ∀ (w : World) (op : QueueOp), op ≠ .dequeue → KeepsLast w op :=
    fun w op hop hdeq => absurd hdeq hop
  exact Machine.admissible_cons (hother _ _ (by simp)) rfl <|
    Machine.admissible_cons (hother _ _ (by simp)) rfl <|
    Machine.admissible_cons (fun _ => by decide) rfl <|
    Machine.admissible_cons (hother _ _ (by simp)) rfl <|
    Machine.admissible_cons (hother _ _ (by simp)) rfl <|
    Machine.admissible_cons (hother _ _ (by simp)) rfl trivial

/-- A program whose only node is taken out with dequeue. -/
def drain : List QueueOp := [.enqueue (some 0x1000) sample 2, .dequeue]

theorem drain_owed :
    (queueMachine .debug 2).Admissible (World.init Mem.empty ⟨none, none, 0, 0⟩ 1) drain := by
  refine Machine.admissible_cons ⟨by decide, ?_⟩ rfl (Machine.admissible_cons trivial rfl trivial)
  rintro _ ⟨⟩
  exact mallocOk_of_blocksOf [] rfl (by decide) (by decide) (by decide)

/-- After `drain` the queue is empty and its tail is the node that left. -/
theorem drain_not_repOk :
    (queueMachine .debug 2).Admissible (World.init Mem.empty ⟨none, none, 0, 0⟩ 1) drain ∧
    ∃ rs w,
      (queueMachine .debug 2).run (World.init Mem.empty ⟨none, none, 0, 0⟩ 1) drain
        = .ok (rs, w) ∧
      w.q.head = none ∧ w.q.count = 0 ∧ w.q.tail = some 0x1040 ∧ w.held = [0x1040] ∧ ¬w.RepOk := by
  refine ⟨drain_owed, _, _, rfl, rfl, rfl, rfl, rfl, fun h => ?_⟩
  cases h.head_iff_tail.mp rfl

/-! ### Runs that the debug build does not stop -/

/-- The history variable: has a dequeue taken the last node? -/
def drained (d : Bool) (w : World) : QueueOp → Bool
  | .dequeue => d || w.q.count = 1
  | _ => d

/-- Once a dequeue has taken the last node, no enqueue gets memory. -/
def NoRefill (x : World × Bool) (op : QueueOp) : Prop :=
  x.2 = true → ∀ orig data len, op ≠ .enqueue (some orig) data len

/-- The invariant of the debug build: the queue is tight until it is drained, and stays empty,
with a tail, from then on. -/
inductive DebugOk (maxEl : UInt32) : World × Bool → Prop
  | tight {m₀ : Mem} {w : World} {items : List (Addr × List UInt8)} : Sim m₀ w items →
      w.q.maxEl = maxEl → IsQueue.Tight w.q (items.map Prod.fst) → DebugOk maxEl (w, false)
  | stale {m₀ : Mem} {w : World} : Sim m₀ w [] → w.q.maxEl = maxEl → w.q.tail ≠ none → 0 < maxEl.toNat →
      DebugOk maxEl (w, true)

section

variable {m₀ : Mem} {w : World} {items : List (Addr × List UInt8)} {fuel : ℕ} {op : QueueOp}

theorem drained_false_of (h : op = .dequeue → w.q.count ≠ 1) : drained false w op = false := by
  cases op with
  | dequeue => simpa [drained] using h rfl
  | enqueue ans data len => rfl
  | detach n => rfl
  | delete n => rfl

theorem drained_true (w : World) (op : QueueOp) : drained true w op = true := by
  cases op <;> rfl

/-- The step lemma for a queue that is not drained. -/
theorem DebugOk.step_tight (h : Sim m₀ w items) (ht : IsQueue.Tight w.q (items.map Prod.fst))
    (hpre : Owed w op) (hfuel : w.q.maxEl.toNat < fuel) :
    ∃ r w', exec .debug fuel w op = .ok (r, w') ∧
      DebugOk w.q.maxEl (w', drained false w op) := by
  by_cases hlast : op = .dequeue ∧ w.q.count = 1
  · -- the queue is drained: the tail is the node that is handed out
    obtain ⟨rfl, hone⟩ := hlast
    obtain ⟨r, w', hexec, -, hsim, hs⟩ :=
      exec_simulates (b := .debug) h hpre hfuel fun _ _ _ _ _ => ht
    have hlen : (items.map Prod.fst).length = 1 := by rw [← h.good.queue.count, hone]; rfl
    have hle := h.good.queue.le_max
    obtain ⟨it, rfl⟩ := List.length_eq_one_iff.mp ((List.length_map _).symm.trans hlen)
    have hd : drained false w .dequeue = true := by simp [drained, hone]
    rw [hd]
    refine ⟨r, w', hexec, .stale hsim hs.maxEl ?_ (by omega)⟩
    rw [hs.dequeue_tail rfl, h.good.queue.tail (by simp)]
    simp
  · have hop : op = .dequeue → w.q.count ≠ 1 := by
      intro hdeq hone
      exact hlast ⟨hdeq, hone⟩
    obtain ⟨r, w', items', hexec, hsim, hmax, ht'⟩ := exec_tight (b := .debug) h ht hpre hfuel hop
    rw [drained_false_of hop]
    exact ⟨r, w', hexec, .tight hsim hmax ht'⟩

/-- Without memory for a new node, an empty list stays empty. -/
theorem fifo_step_nil (cap : ℕ) (hop : ∀ orig data len, op ≠ .enqueue (some orig) data len) :
    (Fifo.step cap [] op.toFifo).2 = [] := by
  cases op with
  | enqueue ans data len =>
    cases ans with
    | none =>
      simp only [QueueOp.toFifo, Fifo.step, Option.map_none]
      split <;> rfl
    | some orig => exact absurd rfl (hop orig data len)
  | dequeue => rfl
  | detach n => rfl
  | delete n => rfl

/-- The step lemma for a drained queue: nothing happens to it any more. -/
theorem DebugOk.step_drained (h : Sim m₀ w []) (htail : w.q.tail ≠ none)
    (hpos : 0 < w.q.maxEl.toNat) (hpre : Owed w op) (hfuel : w.q.maxEl.toNat < fuel)
    (hop : ∀ orig data len, op ≠ .enqueue (some orig) data len) :
    ∃ r w', exec .debug fuel w op = .ok (r, w') ∧ DebugOk w.q.maxEl (w', drained true w op) := by
  obtain ⟨r, w', hexec, -, hsim, hs⟩ :=
    exec_simulates (b := .debug) h hpre hfuel fun _ orig data len heq =>
      absurd heq (hop orig data len)
  rw [fifo_step_nil _ hop] at hsim hs
  rw [drained_true]
  refine ⟨r, w', hexec, .stale hsim hs.maxEl ?_ hpos⟩
  rw [hs.idle rfl rfl]
  exact htail

/-- An enqueue that gets memory stops the debug build when the queue is drained. -/
theorem exec_enqueue_drained (h : Sim m₀ w []) (htail : w.q.tail ≠ none)
    (hpos : 0 < w.q.maxEl.toNat) {orig : UInt64} {data : CObj} {len : UInt64}
    (hpre : Owed w (.enqueue (some orig) data len)) :
    exec .debug fuel w (.enqueue (some orig) data len) = .error (.abort .enqueueTail) := by
  have hlen : len.toNat + 129 < 2 ^ 64 := by
    have hdata := hpre.1
    have := data.length_lt
    omega
  obtain ⟨m', hrun⟩ := run_btQueueEnqueue_assert h.good.wf h.good.queue hpos hlen
    (hpre.2 orig rfl) hpre.1 rfl htail
  rw [exec, outcome_error hrun]
  rfl

end

section

variable {m : Mem} (hm : m.WF) (q : BtQueue) (maxEl : UInt32) {fuel : ℕ} {ops : List QueueOp}

include hm

/-- In the debug build nothing stops a run of a correct program in which, once a dequeue has
taken the last node, no enqueue gets memory; nor does the `bt_queue_destroy` after it.  In a state
where a dequeue did take the last node, an enqueue that gets memory stops the program. -/
theorem queue_debug_safe (hfuel : maxEl.toNat < fuel)
    (hops : (((queueMachine .debug fuel).withHistory drained).restrict NoRefill).Admissible
      (World.init m q maxEl, false) ops) :
    ∃ rs w d m',
      ((queueMachine .debug fuel).withHistory drained).run (World.init m q maxEl, false) ops
        = .ok (rs, (w, d)) ∧
      (queueMachine .debug fuel).run (World.init m q maxEl) ops = .ok (rs, w) ∧
      (btQueueDestroy fuel w.q).run w.mem = .ok (⟨none, none, 0, 0⟩, m') ∧
      (d = true → ∀ orig data len, Owed w (.enqueue (some orig) data len) →
        exec .debug fuel w (.enqueue (some orig) data len) = .error (.abort .enqueueTail)) := by
  -- a step either keeps the tail tight, or drains the queue and leaves the tail stale
  have hstep : ∀ (x : World × Bool) (op : QueueOp), DebugOk maxEl x →
      (((queueMachine .debug fuel).withHistory drained).restrict NoRefill).Pre x op →
      ∃ r x', ((queueMachine .debug fuel).withHistory drained).step x op = .ok (r, x') ∧
        DebugOk maxEl x' := by
    rintro x op hx ⟨hpre, hno⟩
    cases hx with
    | tight hsim hmax ht =>
      subst hmax
      obtain ⟨r, w', hexec, hok⟩ := DebugOk.step_tight hsim ht hpre hfuel
      have hmachine : (queueMachine .debug fuel).step _ op = .ok (r, w') := hexec
      exact ⟨r, _, Machine.withHistory_step hmachine _, hok⟩
    | stale hsim hmax htail hpos =>
      subst hmax
      obtain ⟨r, w', hexec, hok⟩ := DebugOk.step_drained hsim htail hpos hpre hfuel (hno rfl)
      have hmachine : (queueMachine .debug fuel).step _ op = .ok (r, w') := hexec
      exact ⟨r, _, Machine.withHistory_step hmachine _, hok⟩
  obtain ⟨rs, ⟨w, d⟩, hrun, hok⟩ :=
    Machine.run_invariant hstep (.tight (Sim.init hm q maxEl) rfl fun _ => rfl) hops
  rw [Machine.run_restrict] at hrun
  have hsim : ∃ m₁ items, Sim m₁ w items ∧ w.q.maxEl = maxEl := by
    cases hok with
    | tight hsim hmax _ => exact ⟨_, _, hsim, hmax⟩
    | stale hsim hmax _ _ => exact ⟨_, _, hsim, hmax⟩
  obtain ⟨m₁, items, hsim, hmax⟩ := hsim
  subst hmax
  -- in both cases the queue is as it should be but for the tail, which destroy does not read
  obtain ⟨m', hdestroy, -⟩ := btQueueDestroy_spec hsim.good.wf hsim.good.queue
    (lt_of_le_of_lt hsim.good.queue.le_max hfuel)
  refine ⟨rs, w, d, m', hrun, Machine.run_of_withHistory hrun, hdestroy, ?_⟩
  rintro rfl orig data len hpre
  cases hok with
  | stale hsim _ htail hpos => exact exec_enqueue_drained hsim htail hpos hpre

end

theorem queue_debug_safe_shuffle : ∃ rs w d m',
    ((queueMachine .debug 3).withHistory drained).run
      (World.init Mem.empty ⟨none, none, 0, 0⟩ 2, false) shuffle = .ok (rs, (w, d)) ∧
    (queueMachine .debug 3).run (World.init Mem.empty ⟨none, none, 0, 0⟩ 2) shuffle
      = .ok (rs, w) ∧
    (btQueueDestroy 3 w.q).run w.mem = .ok (⟨none, none, 0, 0⟩, m') ∧
    (d = true → ∀ orig data len, Owed w (.enqueue (some orig) data len) →
      exec .debug 3 w (.enqueue (some orig) data len) = .error (.abort .enqueueTail)) := by
  refine queue_debug_safe Mem.wf_empty _ 2 (by decide)
    (Machine.admissible_restrict (Machine.admissible_withHistory shuffle_owed _) ?_)
  have hlive : ∀ (w : World) (op : QueueOp), NoRefill (w, false) op := fun w op h => by cases h
  exact Machine.admissible_cons (hlive _ _) rfl <| Machine.admissible_cons (hlive _ _) rfl <|
    Machine.admissible_cons (hlive _ _) rfl <| Machine.admissible_cons (hlive _ _) rfl <|
    Machine.admissible_cons (hlive _ _) rfl <| Machine.admissible_cons (hlive _ _) rfl trivial

/-- Enqueue, dequeue, enqueue: the debug build stops at the assertion in the second enqueue. -/
theorem drain_enqueue_aborts :
    (queueMachine .debug 2).Admissible (World.init Mem.empty ⟨none, none, 0, 0⟩ 1)
      (drain ++ [.enqueue (some 0x2000) sample 1]) ∧
    (queueMachine .debug 2).run (World.init Mem.empty ⟨none, none, 0, 0⟩ 1)
      (drain ++ [.enqueue (some 0x2000) sample 1]) = .error (.abort .enqueueTail) := by
  refine ⟨Machine.admissible_cons ⟨by decide, ?_⟩ rfl <|
    Machine.admissible_cons trivial rfl ⟨⟨by decide, ?_⟩, fun r w h => by cases h⟩, rfl⟩
  · rintro _ ⟨⟩
    exact mallocOk_of_blocksOf [] rfl (by decide) (by decide) (by decide)
  · rintro _ ⟨⟩
    exact mallocOk_of_blocksOf [(0x1040, some ⟨0x1000, nodeSize 2, 0x40⟩)] rfl
      (by decide) (by decide) (by decide)

end Bluetea.Queue
