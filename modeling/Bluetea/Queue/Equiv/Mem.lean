import Bluetea.Machine.Memory
import Bluetea.Queue.Node

/-!
# The memory of the queue: well-formedness and accesses

A memory is well formed (`Mem.WF`) when every live node lies inside its block, its shift byte
leads back to the block's start, and no two live blocks overlap.  Accesses to live nodes of a
well-formed memory do not fault; the lemmas `run_*` compute them.

`Mem.Relinked m m'` says that `m'` differs from `m` in links and in the list of accesses only:
what lives, what is stored in the payloads, `errno` and what was allocated and freed are the same.
-/

namespace Bluetea.Queue

open DoublyLinked Machine

/-! ### The memory updates -/

namespace Mem

variable {m m' m'' : Mem} {a a' : Addr} {p : Option Addr} {e : Event}

/-- The node at `a` is allocated and not freed. -/
def Live (m : Mem) (a : Addr) : Prop := ∃ b, m.blocks a = some b

/-- The memory after `a->next = p`. -/
def setNext (m : Mem) (a : Addr) (p : Option Addr) : Mem :=
  (m.update a ({ · with next := p })).log (.write a)

/-- The memory after `a->prev = p`. -/
def setPrev (m : Mem) (a : Addr) (p : Option Addr) : Mem :=
  (m.update a ({ · with prev := p })).log (.write a)

/-- `m'` differs from `m` in links and accesses only. -/
structure Relinked (m m' : Mem) : Prop where
  blocks : m'.blocks = m.blocks
  len : ∀ a, (m'.node a).len = (m.node a).len
  data : ∀ a, (m'.node a).data = (m.node a).data
  errno : m'.errno = m.errno
  allocated : m'.allocated = m.allocated
  freed : m'.freed = m.freed

theorem Relinked.refl (m : Mem) : m.Relinked m := ⟨rfl, fun _ => rfl, fun _ => rfl, rfl, rfl, rfl⟩

theorem Relinked.trans (h : m.Relinked m') (h' : m'.Relinked m'') : m.Relinked m'' :=
  ⟨h'.blocks.trans h.blocks, fun a => (h'.len a).trans (h.len a),
    fun a => (h'.data a).trans (h.data a), h'.errno.trans h.errno,
    h'.allocated.trans h.allocated, h'.freed.trans h.freed⟩

theorem Relinked.live_iff (h : m.Relinked m') : m'.Live a ↔ m.Live a := by
  unfold Live
  rw [h.blocks]

theorem Relinked.live_eq (h : m.Relinked m') : m'.Live = m.Live :=
  funext fun _ => propext h.live_iff

theorem allocated_log (m : Mem) (e : Event) :
    (m.log e).allocated = m.allocated ++ e.alloced?.toList := by
  unfold allocated log
  cases h : e.alloced? <;> simp [List.filterMap_append, h]

theorem freed_log (m : Mem) (e : Event) : (m.log e).freed = m.freed ++ e.freed?.toList := by
  unfold freed log
  cases h : e.freed? <;> simp [List.filterMap_append, h]

/-- Changing a node's links, and nothing else of it. -/
theorem relinked_update (m : Mem) (a : Addr) (f : BtQnode → BtQnode)
    (hlen : ∀ n, (f n).len = n.len) (hdata : ∀ n, (f n).data = n.data) :
    m.Relinked ((m.update a f).log (.write a)) := by
  refine ⟨rfl, ?_, ?_, rfl, ?_, ?_⟩
  · intro x
    by_cases hx : x = a
    · subst hx; simp [log, update, hlen]
    · simp [log, update, hx]
  · intro x
    by_cases hx : x = a
    · subst hx; simp [log, update, hdata]
    · simp [log, update, hx]
  · rw [allocated_log]
    simp [Event.alloced?, allocated, update]
  · rw [freed_log]
    simp [Event.freed?, freed, update]

theorem relinked_setNext (m : Mem) (a : Addr) (p : Option Addr) : m.Relinked (m.setNext a p) :=
  relinked_update m a _ (fun _ => rfl) (fun _ => rfl)

theorem relinked_setPrev (m : Mem) (a : Addr) (p : Option Addr) : m.Relinked (m.setPrev a p) :=
  relinked_update m a _ (fun _ => rfl) (fun _ => rfl)

/-- `m'` differs from `m` in the list of accesses only. -/
structure Looked (m m' : Mem) : Prop where
  blocks : m'.blocks = m.blocks
  node : m'.node = m.node
  errno : m'.errno = m.errno
  allocated : m'.allocated = m.allocated
  freed : m'.freed = m.freed

theorem Looked.refl (m : Mem) : m.Looked m := ⟨rfl, rfl, rfl, rfl, rfl⟩

theorem Looked.trans (h : m.Looked m') (h' : m'.Looked m'') : m.Looked m'' :=
  ⟨h'.blocks.trans h.blocks, h'.node.trans h.node, h'.errno.trans h.errno,
    h'.allocated.trans h.allocated, h'.freed.trans h.freed⟩

theorem Looked.link (h : m.Looked m') : m'.link = m.link := by
  unfold Mem.link
  rw [h.node]

theorem Looked.relinked (h : m.Looked m') : m.Relinked m' :=
  ⟨h.blocks, fun a => by rw [h.node], fun a => by rw [h.node], h.errno, h.allocated, h.freed⟩

theorem looked_read (m : Mem) (a : Addr) : m.Looked (m.log (.read a)) :=
  ⟨rfl, rfl, rfl, by simp [allocated_log, Event.alloced?], by simp [freed_log, Event.freed?]⟩

@[simp] theorem blocks_log (m : Mem) (e : Event) : (m.log e).blocks = m.blocks := rfl

theorem link_setNext (m : Mem) (a : Addr) (p : Option Addr) :
    (m.setNext a p).link = Function.update m.link a { m.link a with next := p } := by
  funext x
  by_cases hx : x = a
  · subst hx; simp [link, setNext, log, update]
  · simp [link, setNext, log, update, hx]

theorem link_setPrev (m : Mem) (a : Addr) (p : Option Addr) :
    (m.setPrev a p).link = Function.update m.link a { m.link a with prev := p } := by
  funext x
  by_cases hx : x = a
  · subst hx; simp [link, setPrev, log, update]
  · simp [link, setPrev, log, update, hx]

end Mem

/-! ### Well-formed memories -/

/-- The node at `a` lies in the block `b`, whose shift byte leads back to its start. -/
structure Block.Placed (b : Block) (a : Addr) : Prop where
  base_lt : b.base.toNat < a.toNat
  shift : b.shift.toNat = a.toNat - b.base.toNat
  room : a.toNat + sizeofBtQnode.toNat ≤ b.base.toNat + b.size.toNat

/-- Live nodes lie in their blocks and live blocks do not overlap. -/
structure Mem.WF (m : Mem) : Prop where
  placed : ∀ a b, m.blocks a = some b → b.Placed a
  apart : ∀ a a' b b', m.blocks a = some b → m.blocks a' = some b' → a ≠ a' →
    Apart b.base b.size b'.base b'.size

namespace Mem

variable {m m' : Mem} {a : Addr}

/-- Well-formedness is about the live blocks. -/
theorem WF.congr (hm : m.WF) (h : m'.blocks = m.blocks) : m'.WF :=
  ⟨by rw [h]; exact hm.placed, by rw [h]; exact hm.apart⟩

theorem Relinked.wf (h : m.Relinked m') (hm : m.WF) : m'.WF := hm.congr h.blocks

theorem wf_empty : Mem.empty.WF :=
  ⟨fun _ _ h => by simp [Mem.empty] at h, fun _ _ _ _ h => by simp [Mem.empty] at h⟩

/-- The live blocks of a memory in which only the addresses of `l` were ever used; later uses
come first. -/
def blocksOf (l : List (Addr × Option Block)) : Addr → Option Block :=
  l.foldr (fun x f => Function.update f x.1 x.2) fun _ => none

theorem mem_of_blocksOf {l : List (Addr × Option Block)} {b : Block} (h : blocksOf l a = some b) :
    a ∈ l.map Prod.fst := by
  induction l with
  | nil => cases h
  | cons x l ih =>
    rw [List.map_cons, List.mem_cons]
    -- the latest use of an address decides
    by_cases hx : a = x.1
    · exact Or.inl hx
    · rw [blocksOf, List.foldr_cons, Function.update_of_ne hx] at h
      exact Or.inr (ih h)

/-- Over such a memory what `malloc` promises can be checked. -/
theorem mallocOk_of_blocksOf (l : List (Addr × Option Block)) {size orig : UInt64}
    (hm : m.blocks = blocksOf l) (h0 : orig ≠ 0) (hwrap : orig.toNat + size.toNat ≤ 2 ^ 64)
    (hapart : ((l.map Prod.fst).all fun a =>
      (blocksOf l a).all fun b => decide (Apart orig size b.base b.size)) = true) :
    m.MallocOk size orig := by
  refine ⟨h0, hwrap, fun a b hb => ?_⟩
  rw [hm] at hb
  have hall := List.all_eq_true.mp hapart a (mem_of_blocksOf hb)
  rw [hb] at hall
  exact of_decide_eq_true hall

end Mem

/-! ### Running the accesses -/

section Run

variable {m : Mem} {a : Addr} {b : Block} {n : ℕ}

theorem outcome_ok {α : Type} {x : CM α} {p : α × Mem} (h : x.run m = .ok p) :
    outcome x m = .ok p := by
  rw [outcome, h]
  rfl

theorem outcome_error {α : Type} {x : CM α} {s : Stop} (h : x.run m = .error s) :
    outcome x m = .error s.fault := by
  rw [outcome, h]
  rfl

theorem run_checked (hb : m.blocks a = some b) (hn : b.Contains a.toNat n) :
    (checked (some a) n).run m = .ok (a, m) := by
  simp [checked, hb, hn]
  rfl

variable (hm : m.WF) (ha : m.Live a)

include hm ha

theorem run_checked_header : (checked (some a) sizeofBtQnode.toNat).run m = .ok (a, m) := by
  obtain ⟨b, hb⟩ := ha
  exact run_checked hb ⟨(hm.placed a b hb).base_lt.le, (hm.placed a b hb).room⟩

theorem run_load : (load (some a)).run m = .ok (m.node a, m.log (.read a)) := by
  rw [load, run_bind_ok (run_checked_header hm ha)]
  rfl

theorem run_store (f : BtQnode → BtQnode) :
    (store (some a) f).run m = .ok ((), (m.update a f).log (.write a)) := by
  rw [store, run_bind_ok (run_checked_header hm ha)]
  rfl

theorem run_store_next (p : Option Addr) :
    (store (some a) ({ · with next := p })).run m = .ok ((), m.setNext a p) := run_store hm ha _

theorem run_store_prev (p : Option Addr) :
    (store (some a) ({ · with prev := p })).run m = .ok ((), m.setPrev a p) := run_store hm ha _

end Run

end Bluetea.Queue
