import Bluetea.Que.Equiv.Step
import Bluetea.Machine.Bounded

/-!
# The queue of the old library is a bounded FIFO

`Good m₀ w l out` is the invariant of a program that began in the memory `m₀`, `Sim m₀ w items out`
adds the payloads.  Every call of a correct caller answers what the same operation of `Fifo.step` answers (`exec_simulates`), in every
build, and so does every run (`que_refines_fifo`).

The machine is run with the history variable `nextOut`, so that the runs also tell what the `prev`
links are (`que_prev_links`): they are those of a doubly linked list if and only if no node was taken
out since the queue was last empty.
-/

namespace Bluetea.Que

open DoublyLinked Ledger Mem Machine

open Queue (CObj)

/-- The invariant of a program: `l` are the nodes linked in its queue. -/
structure Good (m₀ : Mem) (w : World) (l : List Addr) (out : Option Addr) : Prop where
  wf : w.mem.WF
  queue : IsQue w.mem w.que out l
  out_nil : l = [] → out = none
  ledger : Balanced m₀.Live w.mem.Live w.mem.allocated w.mem.freed (l ++ w.held)

variable {m₀ : Mem} {w : World} {l : List Addr} {out : Option Addr} (ndebug : Bool)

theorem Good.init {m : Mem} (hm : m.WF) (q : QueMaster) (capacity : UInt32) :
    Good m (World.init m q capacity) [] none :=
  { wf := hm.congr rfl
    queue := IsQue.init _ q capacity
    out_nil := fun _ => rfl
    ledger := .init m.Live }

theorem Good.nodup (h : Good m₀ w l out) : (l ++ w.held).Nodup := h.ledger.nodup

theorem Good.held_live (h : Good m₀ w l out) {a : Addr} (ha : a ∈ w.held) : w.mem.Live a :=
  h.ledger.live_of_owned (List.mem_append_right l ha)

theorem Good.setErrno (h : Good m₀ w l out) (e : Int) :
    Good m₀ { w with mem := w.mem.setErrno e } l out :=
  { wf := h.wf.congr rfl
    queue := h.queue.congr (fun _ _ => rfl) h.queue.live
    out_nil := h.out_nil
    ledger := h.ledger }

/-- The world after `que_destroy` left the memory `m`. -/
def World.destroyed (w : World) (m : Mem) : World :=
  { w with mem := m, que := ⟨none, none, 0, 0⟩ }

/-- The linked nodes are booked as freed. -/
theorem Good.destroyed {m : Mem} (h : Good m₀ w l out) (hr : w.mem.Released m l) :
    Good m₀ (w.destroyed m) [] none := by
  refine ⟨hr.wf h.wf, IsQue.init m w.que 0, fun _ => rfl, ?_⟩
  show Balanced m₀.Live m.Live m.allocated m.freed ([] ++ w.held)
  rw [hr.allocated, hr.freed]
  exact h.ledger.free hr.live_iff

/-! ### The outcomes of the calls -/

section Enqueue

variable {data : CObj} {len : UInt64} (h : Good m₀ w l out)

include h

theorem exec_enqueue_full (ans : Option Addr) (hfull : w.que.capacity.toNat ≤ l.length) :
    exec ndebug w (.enqueue ans data len)
      = .ok (⟨none, EAGAIN, none⟩, { w with mem := w.mem.setErrno EAGAIN }) := by
  simp only [exec, run_queEnqueue_full ndebug ans h.queue hfull]
  rfl

theorem exec_enqueue_noMemory (hlt : l.length < w.que.capacity.toNat) :
    exec ndebug w (.enqueue none data len)
      = .ok (⟨none, ENOMEM, none⟩, { w with mem := w.mem.setErrno ENOMEM }) := by
  simp only [exec, run_queEnqueue_noMemory ndebug h.queue hlt]
  rfl

theorem exec_enqueue_ok {a : Addr} (hlt : l.length < w.que.capacity.toNat)
    (hpre : Owed w (.enqueue (some a) data len)) :
    ∃ w', exec ndebug w (.enqueue (some a) data len) = .ok (observe (some a) w'.mem, w') ∧
      Good m₀ w' (l ++ [a]) out ∧ w'.que.capacity = w.que.capacity ∧
      w'.mem.Holds a (data.bytes.take len.toNat) ∧
      ∀ x bs, x ∈ l ++ w.held → w.mem.Holds x bs → w'.mem.Holds x bs := by
  obtain ⟨hdata, hans⟩ := hpre
  have hlen : len.toNat < 2 ^ 63 := Nat.lt_of_le_of_lt hdata data.length_lt
  obtain ⟨m', q', hrun, he⟩ :=
    queEnqueue_spec ndebug h.wf h.queue h.out_nil hlt hlen hdata (hans a rfl)
  -- no node of the program lies in the new block
  have hne : ∀ x ∈ l ++ w.held, x ≠ a := by
    rintro x hx rfl
    rcases List.mem_append.mp hx with hx | hx
    · exact he.fresh (h.queue.live _ hx)
    · exact he.fresh (h.held_live hx)
  refine ⟨⟨m', q', w.held⟩, ?_, ⟨he.wf, he.queue, ?_, ?_⟩, he.capacity, he.holds,
    fun x bs hx => he.others x bs (hne x hx)⟩
  · simp only [exec, hrun]
    rfl
  · intro hnil
    simp at hnil
  · -- the new node is booked as linked
    show Balanced m₀.Live m'.Live m'.allocated m'.freed (l ++ [a] ++ w.held)
    rw [he.allocated, he.freed, List.append_assoc, List.singleton_append]
    exact (h.ledger.alloc he.fresh he.live_iff).perm_owned List.perm_middle.symm

end Enqueue

theorem exec_dequeue_empty (h : Good m₀ w [] out) :
    exec ndebug w .dequeue = .ok (⟨none, w.mem.errno, none⟩, w) := by
  simp only [exec, run_queDequeue_empty ndebug h.queue]
  rfl

theorem exec_dequeue_ok {a : Addr} (h : Good m₀ w (a :: l) out) :
    ∃ w', exec ndebug w .dequeue = .ok (observe (some a) w'.mem, w') ∧
      Good m₀ w' l (nextOut out w .dequeue) ∧ w'.mem = w.mem ∧
      w'.que.capacity = w.que.capacity := by
  obtain ⟨q', hrun, hcap, hqueue⟩ := queDequeue_spec ndebug h.wf h.queue
  have hout : nextOut out w .dequeue = if l = [] then none else some a := by
    have hcount := h.queue.count
    have hle : w.que.count ≤ 1 ↔ l = [] := by
      rw [UInt32.le_iff_toNat_le, hcount, ← List.length_eq_zero_iff, List.length_cons]
      show l.length + 1 ≤ 1 ↔ _
      omega
    have hhead : w.que.head = some a := h.queue.head
    simp only [nextOut, hle, hhead]
  rw [hout]
  refine ⟨⟨w.mem, q', a :: w.held⟩, ?_, ⟨h.wf, hqueue, ?_, ?_⟩, rfl, hcap⟩
  · simp only [exec, hrun]
    rfl
  · exact fun hnil => if_pos hnil
  · -- the node moves from one list of the books to the other
    exact h.ledger.perm_owned List.perm_middle.symm

theorem exec_nodeDestroy_ok {a : Addr} (h : Good m₀ w l out) (ha : a ∈ w.held) :
    ∃ w', exec ndebug w (.nodeDestroy a) = .ok (observe none w'.mem, w') ∧ Good m₀ w' l out ∧
      w'.que = w.que ∧ w'.mem.node = w.mem.node := by
  have hrelease := released_release w.mem a
  have hal : a ∉ l := fun hl => (List.nodup_append.mp h.nodup).2.2 a hl a ha rfl
  refine ⟨⟨w.mem.release a, w.que, w.held.erase a⟩, ?_, ⟨hrelease.wf h.wf, ?_, h.out_nil, ?_⟩, rfl,
    rfl⟩
  · simp only [exec, run_queNodeDestroy (h.held_live ha)]
    rfl
  · refine h.queue.congr (fun _ _ => rfl) fun x hx => (hrelease.live_iff x).mpr ⟨?_, h.queue.live x hx⟩
    rw [List.mem_singleton]
    rintro rfl
    exact hal hx
  · show Balanced m₀.Live (w.mem.release a).Live (w.mem.release a).allocated
      (w.mem.release a).freed (l ++ w.held.erase a)
    rw [hrelease.allocated, hrelease.freed, ← List.erase_append_right _ hal]
    refine h.ledger.free_one (List.mem_append_right l ha) fun x => ?_
    rw [hrelease.live_iff, List.mem_singleton]

/-! ### The two systems side by side -/

/-- The operation on the list of items. -/
def QueOp.toFifo : QueOp → Fifo.Op Addr (List UInt8)
  | .enqueue ans data len => .enqueue (data.bytes.take len.toNat) ans
  | .dequeue => .dequeue
  | .nodeDestroy _ => .skip

/-- The `errno` of a failed operation.  `que_dequeue` sets none. -/
def errnoOf : Fifo.Err → Option Int
  | .full => some EAGAIN
  | .noMemory => some ENOMEM
  | .empty => none

/-- What a caller sees when the operation on the list answers so: a payload comes with its length
and with a NUL behind it. -/
def Res.Means (r : Res) : Except Fifo.Err (Option (Addr × List UInt8)) → Prop
  | .ok none => r.ret = none
  | .ok (some (a, v)) => r.ret = some a ∧
      ∃ len, r.payload = some (len, v ++ [0]) ∧ len.toNat = v.length
  | .error e => r.ret = none ∧ ∀ n, errnoOf e = some n → r.errno = n

/-- The queue of `w` holds `items`, and its head points back to `out`. -/
structure Sim (m₀ : Mem) (w : World) (items : List (Addr × List UInt8)) (out : Option Addr) : Prop where
  good : Good m₀ w (items.map Prod.fst) out
  holds : ∀ it ∈ items, w.mem.Holds it.1 it.2

theorem means_observe {m : Mem} {a : Addr} {v : List UInt8} (h : m.Holds a v) :
    (observe (some a) m).Means (.ok (some (a, v))) := by
  refine ⟨rfl, (m.node a).len, ?_, h.len⟩
  simp only [observe, Option.map_some, h.len, h.data]

section

variable {items : List (Addr × List UInt8)}

theorem Sim.init {m : Mem} (hm : m.WF) (q : QueMaster) (capacity : UInt32) :
    Sim m (World.init m q capacity) [] none :=
  ⟨Good.init hm q capacity, by simp⟩

theorem Sim.setErrno (h : Sim m₀ w items out) (e : Int) :
    Sim m₀ { w with mem := w.mem.setErrno e } items out :=
  ⟨h.good.setErrno e, fun it hit => (h.holds it hit).congr rfl rfl⟩

/-- The step lemma: one call of a correct caller agrees with one operation on the list. -/
theorem exec_simulates (h : Sim m₀ w items out) {op : QueOp} (hpre : Owed w op) :
    ∃ r w', exec ndebug w op = .ok (r, w') ∧
      r.Means (Fifo.step w.que.capacity.toNat items op.toFifo).1 ∧
      Sim m₀ w' (Fifo.step w.que.capacity.toNat items op.toFifo).2 (nextOut out w op) ∧
      w'.que.capacity = w.que.capacity := by
  have hlen : (items.map Prod.fst).length = items.length := List.length_map _
  cases op with
  | enqueue ans data len =>
    by_cases hfull : w.que.capacity.toNat ≤ items.length
    · -- no room: both refuse, and nothing is asked of malloc
      simp only [QueOp.toFifo, Fifo.step, if_pos hfull]
      refine ⟨_, _, exec_enqueue_full ndebug h.good ans (by rw [hlen]; exact hfull), ⟨rfl, ?_⟩,
        h.setErrno _, rfl⟩
      rintro n ⟨⟩
      rfl
    · have hlt : (items.map Prod.fst).length < w.que.capacity.toNat := by omega
      simp only [QueOp.toFifo, Fifo.step, if_neg hfull]
      cases ans with
      | none =>
        refine ⟨_, _, exec_enqueue_noMemory ndebug h.good hlt, ⟨rfl, ?_⟩, h.setErrno _, rfl⟩
        rintro n ⟨⟩
        rfl
      | some a =>
        obtain ⟨w', hexec, hgood, hcap, hnew, hold⟩ := exec_enqueue_ok ndebug h.good hlt hpre
        refine ⟨_, w', hexec, means_observe hnew, ⟨?_, ?_⟩, hcap⟩
        · rw [List.map_append]
          exact hgood
        · -- the nodes that were there hold what they held
          intro it hit
          rcases List.mem_append.mp hit with hit | hit
          · exact hold _ _ (List.mem_append_left _ (List.mem_map_of_mem hit)) (h.holds it hit)
          · rw [List.mem_singleton.mp hit]
            exact hnew
  | dequeue =>
    cases items with
    | nil =>
      -- nothing is taken out of an empty queue, and nothing was since it was empty
      have hout : nextOut out w .dequeue = none := by
        rw [nextOut, h.good.queue.count_eq_zero_iff.mpr rfl]
        rfl
      have hnone : out = none := h.good.out_nil rfl
      refine ⟨_, w, exec_dequeue_empty ndebug h.good, ⟨rfl, ?_⟩, ?_, rfl⟩
      · rintro n ⟨⟩
      · rw [hout, ← hnone]
        exact h
    | cons it items =>
      obtain ⟨w', hexec, hgood, hmem, hcap⟩ := exec_dequeue_ok ndebug h.good
      have hholds : ∀ x ∈ it :: items, w'.mem.Holds x.1 x.2 := by
        rw [hmem]
        exact h.holds
      exact ⟨_, w', hexec, means_observe (hholds it (List.mem_cons_self ..)),
        ⟨hgood, fun x hx => hholds x (List.mem_cons_of_mem _ hx)⟩, hcap⟩
  | nodeDestroy n =>
    obtain ⟨w', hexec, hgood, hque, hnode⟩ := exec_nodeDestroy_ok ndebug h.good hpre
    refine ⟨_, w', hexec, rfl, ⟨hgood, fun it hit => (h.holds it hit).congr ?_ ?_⟩, by rw [hque]⟩
    · rw [hnode]
    · rw [hnode]

/-! ### Runs -/

/-- The run lemma, with the history. -/
theorem Sim.run {ops : List QueOp} (h : Sim m₀ w items out)
    (hops : (queMachine ndebug).Admissible w ops) :
    ∃ rs w' out', ((queMachine ndebug).withHistory nextOut).run (w, out) ops = .ok (rs, (w', out')) ∧
      rs.Forall₂ Res.Means
        (Machine.answers (Fifo.step w.que.capacity.toNat) items (ops.map QueOp.toFifo)).1 ∧
      Sim m₀ w' (Machine.answers (Fifo.step w.que.capacity.toNat) items (ops.map QueOp.toFifo)).2
        out' ∧
      w'.que.capacity = w.que.capacity := by
  have hstep : ∀ (x : World × Option Addr) (items₁ : List (Addr × List UInt8)) (op : QueOp),
      (Sim m₀ x.1 items₁ x.2 ∧ x.1.que.capacity = w.que.capacity) →
      ((queMachine ndebug).withHistory nextOut).Pre x op →
      ∃ r y, ((queMachine ndebug).withHistory nextOut).step x op = .ok (r, y) ∧
        r.Means (Fifo.step w.que.capacity.toNat items₁ op.toFifo).1 ∧
        (Sim m₀ y.1 (Fifo.step w.que.capacity.toNat items₁ op.toFifo).2 y.2 ∧
          y.1.que.capacity = w.que.capacity) := by
    rintro ⟨w₁, out₁⟩ items₁ op ⟨hsim, hcap⟩ hpre
    obtain ⟨r, w₂, hexec, hmeans, hsim', hcap'⟩ := exec_simulates ndebug hsim hpre
    rw [hcap] at hmeans hsim' hcap'
    exact ⟨r, (w₂, nextOut out₁ w₁ op), withHistory_step hexec out₁, hmeans, hsim', hcap'⟩
  rw [Machine.answers_map]
  obtain ⟨rs, ⟨w', out'⟩, hrun, hall, hsim, hcap⟩ :=
    run_simulates hstep (s := (w, out)) ⟨h, rfl⟩ (admissible_withHistory hops out)
  exact ⟨rs, w', out', hrun, hall, hsim, hcap⟩

end

/-! ### A run on which the results are tried -/

namespace Mem

variable {m : Mem} {a : Addr} {size : UInt64}

/-- The live blocks of a memory in which only the addresses of `l` were ever used; later uses
come first. -/
def sizesOf (l : List (Addr × Option UInt64)) : Addr → Option UInt64 :=
  l.foldr (fun x f => Function.update f x.1 x.2) fun _ => none

theorem mem_of_sizesOf {l : List (Addr × Option UInt64)} (h : sizesOf l a = some size) :
    a ∈ l.map Prod.fst := by
  induction l with
  | nil => cases h
  | cons x l ih =>
    rw [List.map_cons, List.mem_cons]
    by_cases hx : a = x.1
    · exact Or.inl hx
    · rw [sizesOf, List.foldr_cons, Function.update_of_ne hx] at h
      exact Or.inr (ih h)

/-- Over such a memory what `aligned_alloc` promises can be checked. -/
theorem allocOk_of_sizesOf (l : List (Addr × Option UInt64)) (hm : m.blocks = sizesOf l)
    (h0 : a ≠ 0) (halign : a.toNat % 64 = 0) (hwrap : a.toNat + size.toNat ≤ 2 ^ 64)
    (hapart : ((l.map Prod.fst).all fun a' => (sizesOf l a').all fun size' =>
      decide (a.toNat + size.toNat ≤ a'.toNat ∨ a'.toNat + size'.toNat ≤ a.toNat)) = true) :
    m.AllocOk size a := by
  refine ⟨h0, Nat.dvd_of_mod_eq_zero halign, hwrap, fun a' size' hb => ?_⟩
  rw [hm] at hb
  have hall := List.all_eq_true.mp hapart a' (mem_of_sizesOf hb)
  rw [hb] at hall
  exact of_decide_eq_true hall

end Mem

/-- Three bytes of data. -/
def sample : CObj := ⟨[113, 117, 101], by decide⟩

/-- A program that fills a queue, takes out the first node and fills the queue again with a block at
the address of the node it destroyed. -/
def refill : List QueOp :=
  [.enqueue (some 0x1000) sample 2, .enqueue (some 0x2000) sample 1,
    .enqueue (some 0x3000) sample 2, .dequeue, .nodeDestroy 0x1000, .enqueue none sample 2,
    .enqueue (some 0x1000) sample 0]

theorem refill_admissible :
    (queMachine false).Admissible (World.init Mem.empty ⟨none, none, 0, 0⟩ 2) refill := by
  refine Machine.admissible_cons ⟨by decide, ?_⟩ rfl <|
    Machine.admissible_cons ⟨by decide, ?_⟩ rfl <|
    Machine.admissible_cons ⟨by decide, ?_⟩ rfl <|
    Machine.admissible_cons trivial rfl <|
    Machine.admissible_cons (List.mem_singleton.mpr rfl) rfl <|
    Machine.admissible_cons ⟨by decide, fun _ h => by cases h⟩ rfl <|
    Machine.admissible_cons ⟨by decide, ?_⟩ rfl trivial
  · rintro _ ⟨⟩
    exact allocOk_of_sizesOf [] rfl (by decide) (by decide) (by decide) (by decide)
  · rintro _ ⟨⟩
    exact allocOk_of_sizesOf [(0x1000, some 68)] rfl (by decide) (by decide) (by decide) (by decide)
  · rintro _ ⟨⟩
    exact allocOk_of_sizesOf [(0x2000, some 67), (0x1000, some 68)] rfl (by decide) (by decide)
      (by decide) (by decide)
  · rintro _ ⟨⟩
    exact allocOk_of_sizesOf [(0x1000, none), (0x2000, some 67), (0x1000, some 68)] rfl (by decide)
      (by decide) (by decide) (by decide)

/-! ### Results about all runs -/

section

variable {m : Mem} (hm : m.WF) (q : QueMaster) (capacity : UInt32) {ops : List QueOp}

include hm in
/-- In every build, every run of a correct program from `que_init` on passes all assertions and
answers as a FIFO of at most `capacity` items does.  At its end `que_count` is the number of items,
`next` leads from the head through their nodes in order, and each node holds its item, with a NUL
behind it; an enqueue there that finds the queue full sets `errno` and nothing else, whatever the
allocator would answer. -/
theorem que_refines_fifo
    (hops : (queMachine ndebug).Admissible (World.init m q capacity) ops) :
    ∃ rs w items, (queMachine ndebug).run (World.init m q capacity) ops = .ok (rs, w) ∧
      rs.Forall₂ Res.Means
        (Machine.answers (Fifo.step capacity.toNat) [] (ops.map QueOp.toFifo)).1 ∧
      (Machine.answers (Fifo.step capacity.toNat) [] (ops.map QueOp.toFifo)).2 = items ∧
      (queCount w.que).toNat = items.length ∧
      Walk (fun a => (w.mem.node a).next) w.que.head (items.map Prod.fst) ∧
      (∀ it ∈ items, w.mem.Holds it.1 it.2) ∧
      (capacity.toNat ≤ items.length → ∀ ans data len,
        exec ndebug w (.enqueue ans data len)
          = .ok (⟨none, EAGAIN, none⟩, { w with mem := w.mem.setErrno EAGAIN })) := by
  obtain ⟨rs, w, out, hrun, hall, hsim, hcap⟩ := (Sim.init hm q capacity).run ndebug hops
  have hqueue := hsim.good.queue
  refine ⟨rs, w, _, run_of_withHistory hrun, hall, rfl, hqueue.count.trans (List.length_map _),
    hqueue.walk_next, hsim.holds, ?_⟩
  intro hfull ans data len
  refine exec_enqueue_full ndebug hsim.good ans ?_
  rw [hcap, List.length_map]
  exact hfull

theorem que_refines_fifo_refill : ∃ rs w items,
    (queMachine false).run (World.init Mem.empty ⟨none, none, 0, 0⟩ 2) refill = .ok (rs, w) ∧
    rs.Forall₂ Res.Means (Machine.answers (Fifo.step 2) [] (refill.map QueOp.toFifo)).1 ∧
    (Machine.answers (Fifo.step 2) [] (refill.map QueOp.toFifo)).2 = items ∧
    (queCount w.que).toNat = items.length ∧
    Walk (fun a => (w.mem.node a).next) w.que.head (items.map Prod.fst) ∧
    (∀ it ∈ items, w.mem.Holds it.1 it.2) ∧
    (2 ≤ items.length → ∀ ans data len,
      exec false w (.enqueue ans data len)
        = .ok (⟨none, EAGAIN, none⟩, { w with mem := w.mem.setErrno EAGAIN })) :=
  que_refines_fifo false Mem.wf_empty _ 2 refill_admissible

include hm in
/-- The `prev` links in every state of a run.  Each node but the head points back to the one in
front of it.  The head points back to the node taken out last, unless the queue has been empty since:
only then `prev` leads from the tail through the queue to its end. -/
theorem que_prev_links
    (hops : (queMachine ndebug).Admissible (World.init m q capacity) ops) :
    ∃ rs w out l, ((queMachine ndebug).withHistory nextOut).run (World.init m q capacity, none) ops
        = .ok (rs, (w, out)) ∧
      Walk (fun a => (w.mem.node a).next) w.que.head l ∧
      (∀ l₁ a b l₂, l = l₁ ++ a :: b :: l₂ → (w.mem.node b).prev = some a) ∧
      (∀ a, w.que.head = some a → (w.mem.node a).prev = out) ∧
      (Walk (fun a => (w.mem.node a).prev) w.que.tail l.reverse ↔ out = none) := by
  obtain ⟨rs, w, out, hrun, -, hsim, -⟩ := (Sim.init hm q capacity).run ndebug hops
  have hqueue := hsim.good.queue
  refine ⟨rs, w, out, _, hrun, hqueue.walk_next, ?_, ?_, ?_⟩
  · intro l₁ a b l₂ hl
    have hseg := hqueue.seg
    rw [hl, seg_append] at hseg
    exact congrArg Link.prev hseg.2.2.1
  · intro a ha
    rw [hqueue.head] at ha
    obtain ⟨l, hl⟩ := List.head?_eq_some_iff.mp ha
    have hseg := hqueue.seg
    rw [hl] at hseg
    exact congrArg Link.prev hseg.1
  · -- the links back reach the head, whose `prev` is the node taken out last
    rw [hqueue.tail]
    exact ⟨hqueue.out_of_walk hsim.good.out_nil, fun hout => (hout ▸ hqueue.seg).walk_prev⟩

theorem que_prev_links_refill : ∃ rs w out l,
    ((queMachine false).withHistory nextOut).run
        (World.init Mem.empty ⟨none, none, 0, 0⟩ 2, none) refill = .ok (rs, (w, out)) ∧
    Walk (fun a => (w.mem.node a).next) w.que.head l ∧
    (∀ l₁ a b l₂, l = l₁ ++ a :: b :: l₂ → (w.mem.node b).prev = some a) ∧
    (∀ a, w.que.head = some a → (w.mem.node a).prev = out) ∧
    (Walk (fun a => (w.mem.node a).prev) w.que.tail l.reverse ↔ out = none) :=
  que_prev_links false Mem.wf_empty _ 2 refill_admissible

include hm in
/-- Node conservation in every build.  In every state of a run of a correct program the ledger
balances: each node that `aligned_alloc` handed out is linked in the queue, held by the caller or
freed, and only one of these, and whatever else is live was live before.  `que_destroy` frees the
linked nodes there, in order and each once, and leaves a queue without room, whose answers are those
of a FIFO without room ever after. -/
theorem que_conserves {fuel : ℕ} (hfuel : capacity.toNat < fuel)
    (hops : (queMachine ndebug).Admissible (World.init m q capacity) ops) :
    ∃ rs w l, (queMachine ndebug).run (World.init m q capacity) ops = .ok (rs, w) ∧
      Walk (fun a => (w.mem.node a).next) w.que.head l ∧
      Balanced m.Live w.mem.Live w.mem.allocated w.mem.freed (l ++ w.held) ∧
      ∃ m', (queDestroy fuel w.que).run w.mem = .ok (⟨none, none, 0, 0⟩, m') ∧
        m'.allocated = w.mem.allocated ∧ m'.freed = w.mem.freed ++ l ∧
        (∀ a, m'.Live a ↔ a ∉ l ∧ w.mem.Live a) ∧
        (∀ a ∈ w.held, m'.Live a ∧ m'.node a = w.mem.node a) ∧
        ∀ later, (queMachine ndebug).Admissible (w.destroyed m') later →
          ∃ rs' w', (queMachine ndebug).run (w.destroyed m') later = .ok (rs', w') ∧
            rs'.Forall₂ Res.Means
              (Machine.answers (Fifo.step 0) [] (later.map QueOp.toFifo)).1 := by
  obtain ⟨rs, w, out, hrun, -, hsim, hcap⟩ := (Sim.init hm q capacity).run ndebug hops
  have hgood := hsim.good
  have hle := hgood.queue.le_cap
  rw [hcap] at hle
  obtain ⟨m', hdestroy, hreleased⟩ :=
    queDestroy_spec hgood.wf hgood.queue (Nat.lt_of_le_of_lt hle hfuel)
  have hgood' := hgood.destroyed hreleased
  refine ⟨rs, w, _, run_of_withHistory hrun, hgood.queue.walk_next, hgood.ledger, m', hdestroy,
    hreleased.allocated, hreleased.freed, hreleased.live_iff,
    fun a ha => ⟨hgood'.held_live ha, congrFun hreleased.node a⟩, ?_⟩
  intro later hlater
  -- behind the destroy the queue is one of capacity 0, so the simulation goes on from an empty list
  have hsim' : Sim m (w.destroyed m') [] none := ⟨hgood', by simp⟩
  obtain ⟨rs', w', out', hrun', hall, -, -⟩ := hsim'.run ndebug hlater
  exact ⟨rs', w', run_of_withHistory hrun', hall⟩

theorem que_conserves_refill : ∃ rs w l,
    (queMachine false).run (World.init Mem.empty ⟨none, none, 0, 0⟩ 2) refill = .ok (rs, w) ∧
    Walk (fun a => (w.mem.node a).next) w.que.head l ∧
    Balanced Mem.empty.Live w.mem.Live w.mem.allocated w.mem.freed (l ++ w.held) ∧
    ∃ m', (queDestroy 3 w.que).run w.mem = .ok (⟨none, none, 0, 0⟩, m') ∧
      m'.allocated = w.mem.allocated ∧ m'.freed = w.mem.freed ++ l ∧
      (∀ a, m'.Live a ↔ a ∉ l ∧ w.mem.Live a) ∧
      (∀ a ∈ w.held, m'.Live a ∧ m'.node a = w.mem.node a) ∧
      ∀ later, (queMachine false).Admissible (w.destroyed m') later →
        ∃ rs' w', (queMachine false).run (w.destroyed m') later = .ok (rs', w') ∧
          rs'.Forall₂ Res.Means (Machine.answers (Fifo.step 0) [] (later.map QueOp.toFifo)).1 :=
  que_conserves false Mem.wf_empty _ 2 (by decide) refill_admissible

end

end Bluetea.Que
