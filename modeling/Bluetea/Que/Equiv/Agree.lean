import Bluetea.Que.Equiv.Refine
import Bluetea.Queue.Equiv.Refine

/-!
# The two queue libraries agree

`que.h` of the old library and `queue.h` of the new one lay their nodes out differently and link them
differently.  A program that only enqueues, dequeues and gives nodes back cannot tell them apart by
the results and the payloads: both are the same bounded FIFO, up to the addresses of the nodes.
-/

namespace Bluetea.Que

open DoublyLinked

/-- The same call on the two libraries.  What the two allocators return is up to them, except that
they run out of memory together. -/
inductive SameCall : QueOp → Queue.QueueOp → Prop
  | enqueue (data : Queue.CObj) (len : UInt64) {ans ans' : Option UInt64}
    (h : ans.isSome = ans'.isSome) : SameCall (.enqueue ans data len) (.enqueue ans' data len)
  | dequeue : SameCall .dequeue .dequeue
  | destroy (n n' : Addr) : SameCall (.nodeDestroy n) (.delete n')

/-- Both calls return no node, or both return a node, with the same length and the same bytes; the
old library has put a NUL behind them. -/
def SameSeen (r : Res) (r' : Queue.Res) : Prop :=
  (r.ret = none ∧ r'.ret = none) ∨
    (r.ret.isSome ∧ r'.ret.isSome ∧
      ∃ len v, r.payload = some (len, v ++ [0]) ∧ r'.payload = some (len, v))

theorem SameCall.toFifo {op : QueOp} {op' : Queue.QueueOp} (h : SameCall op op') :
    op.toFifo.Same op'.toFifo := by
  cases h with
  | enqueue data len h =>
    refine .enqueue _ ?_
    rw [Option.isSome_map]
    exact h
  | dequeue => exact .dequeue
  | destroy n n' => exact .skip

/-- Results that mean the same answer look the same. -/
theorem sameSeen_of_means {r : Res} {r' : Queue.Res}
    {x x' : Except Fifo.Err (Option (Addr × List UInt8))} (hr : r.Means x) (hx : Fifo.SameAnswer x x')
    (hr' : r'.Means x') : SameSeen r r' := by
  match x, x', hx with
  | .error _, .error _, _ => exact Or.inl ⟨hr.1, hr'.1⟩
  | .ok none, .ok none, _ => exact Or.inl ⟨hr, hr'⟩
  | .ok (some (a, v)), .ok (some (a', v')), hx =>
    obtain rfl : v = v' := Option.some.inj hx
    obtain ⟨hret, len, hpayload, hlen⟩ := hr
    obtain ⟨hret', len', hpayload', hlen'⟩ := hr'
    obtain rfl : len = len' := UInt64.toNat_inj.mp (hlen.trans hlen'.symm)
    exact Or.inr ⟨by rw [hret]; rfl, by rw [hret']; rfl, len, v, hpayload, hpayload'⟩

theorem forall₂_sameSeen {rs : List Res} {rs' : List Queue.Res}
    {xs xs' : List (Except Fifo.Err (Option (Addr × List UInt8)))} (hr : rs.Forall₂ Res.Means xs)
    (hx : xs.Forall₂ Fifo.SameAnswer xs') (hr' : rs'.Forall₂ Queue.Res.Means xs') :
    List.Forall₂ SameSeen rs rs' := by
  induction hx generalizing rs rs' with
  | nil =>
    cases hr
    cases hr'
    exact .nil
  | cons hx _ ih =>
    cases hr with
    | cons hr hrs =>
      cases hr' with
      | cons hr' hrs' => exact .cons (sameSeen_of_means hr hx hr') (ih hrs hrs')

/-- `a` is a node of the old library and `a'` one of the new, with one payload. -/
def SamePayload (m : Mem) (m' : Queue.Mem) (a a' : Addr) : Prop :=
  ∃ bs, m.Holds a bs ∧ m'.Holds a' bs

theorem forall₂_samePayload {m : Mem} {m' : Queue.Mem} {items items' : List (Addr × List UInt8)}
    (h : items.map Prod.snd = items'.map Prod.snd) (hm : ∀ it ∈ items, m.Holds it.1 it.2)
    (hm' : ∀ it ∈ items', m'.Holds it.1 it.2) :
    List.Forall₂ (SamePayload m m') (items.map Prod.fst) (items'.map Prod.fst) := by
  induction items generalizing items' with
  | nil =>
    obtain rfl : items' = [] := by simpa using h.symm
    exact .nil
  | cons it items ih =>
    cases items' with
    | nil => cases h
    | cons it' items' =>
      rw [List.map_cons, List.map_cons, List.cons.injEq] at h
      rw [List.forall_mem_cons] at hm hm'
      exact .cons ⟨it.2, hm.1, h.1 ▸ hm'.1⟩ (ih h.2 hm.2 hm'.2)

/-- Any program that is correct on both libraries runs on both, call for call with the same results
and the same payloads, whatever the addresses of the nodes are, and leaves the same payloads in both
queues, in the same order. -/
theorem que_agrees_queue (ndebug : Bool) {m : Mem} {m' : Queue.Mem} (hm : m.WF) (hm' : m'.WF)
    (q : QueMaster) (q' : Queue.BtQueue) (capacity : UInt32) {fuel : ℕ}
    (hfuel : capacity.toNat < fuel) {ops : List QueOp} {ops' : List Queue.QueueOp}
    (hsame : List.Forall₂ SameCall ops ops')
    (hops : (queMachine ndebug).Admissible (World.init m q capacity) ops)
    (hops' : (Queue.queueMachine .ndebug fuel).Admissible (Queue.World.init m' q' capacity) ops') :
    ∃ rs w rs' w', (queMachine ndebug).run (World.init m q capacity) ops = .ok (rs, w) ∧
      (Queue.queueMachine .ndebug fuel).run (Queue.World.init m' q' capacity) ops'
        = .ok (rs', w') ∧
      List.Forall₂ SameSeen rs rs' ∧ queCount w.que = Queue.btQueueCount w'.q ∧
      ∃ l l', Walk (fun a => (w.mem.node a).next) w.que.head l ∧
        Walk (fun a => (w'.mem.node a).next) w'.q.head l' ∧
        List.Forall₂ (SamePayload w.mem w'.mem) l l' := by
  -- both are lists to the outside, and equal calls get equal answers from lists of equal payloads
  obtain ⟨rs, w, out, hrun, hall, hsim, -⟩ := (Sim.init hm q capacity).run ndebug hops
  obtain ⟨rs', w', hrun', hall', hsim', -⟩ := (Queue.Sim.init hm' q' capacity).run hfuel hops'
  have hfifo : List.Forall₂ Fifo.Op.Same (ops.map QueOp.toFifo)
      (ops'.map Queue.QueueOp.toFifo) := by
    rw [List.forall₂_map_left_iff, List.forall₂_map_right_iff]
    exact hsame.imp fun _ _ h => h.toFifo
  have hnil : ([] : List (Addr × List UInt8)).map Prod.snd
      = ([] : List (Queue.Addr × List UInt8)).map Prod.snd := rfl
  obtain ⟨hans, hrest⟩ := Fifo.answers_same capacity.toNat hfifo hnil
  refine ⟨rs, w, rs', w', Machine.run_of_withHistory hrun, hrun',
    forall₂_sameSeen hall hans hall', ?_, _, _, hsim.good.queue.walk_next,
    hsim'.good.queue.walk_next, forall₂_samePayload hrest hsim.holds hsim'.holds⟩
  have hlen := congrArg List.length hrest
  rw [List.length_map, List.length_map] at hlen
  have hcount := hsim.good.queue.count
  have hcount' := hsim'.good.queue.count
  rw [List.length_map] at hcount hcount'
  exact UInt32.toNat_inj.mp (hcount.trans (hlen.trans hcount'.symm))

/-- The calls of `refill` on the new library. -/
def refillNew : List Queue.QueueOp :=
  [.enqueue (some 0x1000) sample 2, .enqueue (some 0x2000) sample 1,
    .enqueue (some 0x3000) sample 2, .dequeue, .delete 0x1040, .enqueue none sample 2,
    .enqueue (some 0x1000) sample 0]

theorem refill_same : List.Forall₂ SameCall refill refillNew :=
  .cons (.enqueue _ _ rfl) <| .cons (.enqueue _ _ rfl) <| .cons (.enqueue _ _ rfl) <|
    .cons .dequeue <| .cons (.destroy _ _) <| .cons (.enqueue _ _ rfl) <|
    .cons (.enqueue _ _ rfl) .nil

theorem refillNew_admissible : (Queue.queueMachine .ndebug 3).Admissible
    (Queue.World.init Queue.Mem.empty ⟨none, none, 0, 0⟩ 2) refillNew := by
  refine Machine.admissible_cons ⟨by decide, ?_⟩ rfl <|
    Machine.admissible_cons ⟨by decide, ?_⟩ rfl <|
    Machine.admissible_cons ⟨by decide, ?_⟩ rfl <|
    Machine.admissible_cons trivial rfl <|
    Machine.admissible_cons (List.mem_singleton.mpr rfl) rfl <|
    Machine.admissible_cons ⟨by decide, fun _ h => by cases h⟩ rfl <|
    Machine.admissible_cons ⟨by decide, ?_⟩ rfl trivial
  · rintro _ ⟨⟩
    exact Queue.Mem.mallocOk_of_blocksOf [] rfl (by decide) (by decide) (by decide)
  · rintro _ ⟨⟩
    exact Queue.Mem.mallocOk_of_blocksOf [(0x1040, some ⟨0x1000, Queue.nodeSize 2, 0x40⟩)] rfl
      (by decide) (by decide) (by decide)
  · rintro _ ⟨⟩
    exact Queue.Mem.mallocOk_of_blocksOf [(0x2040, some ⟨0x2000, Queue.nodeSize 1, 0x40⟩),
      (0x1040, some ⟨0x1000, Queue.nodeSize 2, 0x40⟩)] rfl (by decide) (by decide) (by decide)
  · rintro _ ⟨⟩
    exact Queue.Mem.mallocOk_of_blocksOf [(0x1040, none),
      (0x2040, some ⟨0x2000, Queue.nodeSize 1, 0x40⟩),
      (0x1040, some ⟨0x1000, Queue.nodeSize 2, 0x40⟩)] rfl (by decide) (by decide) (by decide)

theorem que_agrees_queue_refill : ∃ rs w rs' w',
    (queMachine false).run (World.init Mem.empty ⟨none, none, 0, 0⟩ 2) refill = .ok (rs, w) ∧
    (Queue.queueMachine .ndebug 3).run (Queue.World.init Queue.Mem.empty ⟨none, none, 0, 0⟩ 2)
      refillNew = .ok (rs', w') ∧
    List.Forall₂ SameSeen rs rs' ∧ queCount w.que = Queue.btQueueCount w'.q ∧
    ∃ l l', Walk (fun a => (w.mem.node a).next) w.que.head l ∧
      Walk (fun a => (w'.mem.node a).next) w'.q.head l' ∧
      List.Forall₂ (SamePayload w.mem w'.mem) l l' :=
  que_agrees_queue false Mem.wf_empty Queue.Mem.wf_empty _ _ 2 (by decide) refill_same
    refill_admissible refillNew_admissible

end Bluetea.Que
