import Bluetea.Machine.Memory
import Bluetea.Que.Program

/-!
# One call on the queue of the old library

`IsQue m q out l` is the representation invariant: the nodes `l` are linked in both directions,
except that the first one points back to `out`, and both end pointers are those of `l`.  Dequeue
keeps it without a write to any node: the node taken out becomes `out`.

Each function has one lemma for each of its outcomes.
-/

namespace Bluetea.Que

open DoublyLinked Mem Machine

/-! ### The memory -/

namespace Mem

variable {m m' : Mem} {a : Addr}

def Live (m : Mem) (a : Addr) : Prop := ∃ size, m.blocks a = some size

/-- Every live block has room for the fields in front of the data, and more. -/
def WF (m : Mem) : Prop := ∀ a size, m.blocks a = some size → sizeofQueNode.toNat < size.toNat

theorem WF.congr (hm : m.WF) (h : m'.blocks = m.blocks) : m'.WF := by
  unfold WF
  rw [h]
  exact hm

theorem wf_empty : Mem.empty.WF := fun _ _ h => by cases h

/-- The node at `a` has the payload `bytes`, with a NUL behind it. -/
structure Holds (m : Mem) (a : Addr) (bytes : List UInt8) : Prop where
  len : (m.node a).len.toNat = bytes.length
  data : (m.node a).data.take (bytes.length + 1) = bytes ++ [0]

/-- Only the length and the data of a node matter. -/
theorem Holds.congr {bytes : List UInt8} (h : m.Holds a bytes)
    (hlen : (m'.node a).len = (m.node a).len) (hdata : (m'.node a).data = (m.node a).data) :
    m'.Holds a bytes :=
  ⟨hlen ▸ h.len, hdata ▸ h.data⟩

theorem node_update_self (f : QueNode → QueNode) : (m.update a f).node a = f (m.node a) :=
  Function.update_self ..

theorem node_update_of_ne {x : Addr} (h : x ≠ a) (f : QueNode → QueNode) :
    (m.update a f).node x = m.node x :=
  Function.update_of_ne h ..

theorem update_update (f g : QueNode → QueNode) :
    (m.update a f).update a g = m.update a (g ∘ f) := by
  simp [update]

/-- A block that `aligned_alloc` may return is not live. -/
theorem AllocOk.fresh {size : UInt64} (hm : m.WF) (h : m.AllocOk size a) (hsize : 0 < size.toNat) :
    ¬m.Live a := by
  rintro ⟨size', hlive⟩
  have hpos := hm a size' hlive
  have hapart := h.apart a size' hlive
  omega

end Mem

section Run

variable {m : Mem} {a : Addr} {size : UInt64} {n : ℕ}

theorem run_checked (hb : m.blocks a = some size) (hn : n ≤ size.toNat) :
    (checked (some a) n).run m = .ok (a, m) := by
  simp [checked, hb, hn]
  rfl

variable (hm : m.WF) (ha : m.Live a)

include hm ha

theorem run_load : (load (some a)).run m = .ok (m.node a, m) := by
  obtain ⟨size, hb⟩ := ha
  rw [load, run_bind_ok (run_checked hb (Nat.le_of_lt (hm a size hb)))]
  rfl

theorem run_store (f : QueNode → QueNode) : (store (some a) f).run m = .ok ((), m.update a f) := by
  obtain ⟨size, hb⟩ := ha
  rw [store, run_bind_ok (run_checked hb (Nat.le_of_lt (hm a size hb)))]
  rfl

end Run

theorem run_tassert {c : Prop} [Decidable c] (ndebug : Bool) (hc : c) (site : AssertSite) (m : Mem) :
    (tassert ndebug c site).run m = .ok ((), m) := by
  rw [tassert, if_neg fun h => h.2 hc]
  rfl

/-! ### The queue -/

/-- The queue `q` holds the nodes `l`, in this order, and the first one points back to `out`. -/
structure IsQue (m : Mem) (q : QueMaster) (out : Option Addr) (l : List Addr) : Prop where
  head : q.head = l.head?
  tail : q.tail = l.getLast?
  seg : Seg m.link out l none
  live : ∀ a ∈ l, m.Live a
  count : q.count.toNat = l.length
  le_cap : l.length ≤ q.capacity.toNat

namespace IsQue

variable {m m' : Mem} {q : QueMaster} {out : Option Addr} {l : List Addr}

theorem nodup (h : IsQue m q out l) : l.Nodup := h.seg.nodup

theorem count_eq_zero_iff (h : IsQue m q out l) : q.count = 0 ↔ l = [] := by
  rw [← List.length_eq_zero_iff, ← h.count, ← UInt32.toNat_inj, UInt32.toNat_zero]

theorem congr (h : IsQue m q out l) (hlink : ∀ a ∈ l, m'.link a = m.link a)
    (hlive : ∀ a ∈ l, m'.Live a) : IsQue m' q out l :=
  { h with seg := h.seg.congr hlink, live := hlive }

theorem init (m : Mem) (q : QueMaster) (capacity : UInt32) : IsQue m (queInit q capacity) none [] :=
  ⟨rfl, rfl, trivial, by simp, rfl, Nat.zero_le _⟩

/-- `next` leads from the head through the queue. -/
theorem walk_next (h : IsQue m q out l) : Walk (fun a => (m.node a).next) q.head l := by
  rw [h.head]
  exact h.seg.walk_next

/-- A walk back through the whole queue ends at its head. -/
theorem out_of_walk (h : IsQue m q out l) (hnil : l = [] → out = none)
    (hwalk : Walk (fun a => (m.node a).prev) l.getLast? l.reverse) : out = none := by
  cases l with
  | nil => exact hnil rfl
  | cons a l =>
    rw [List.reverse_cons] at hwalk
    have hlast := (Walk.some_cons_iff.mp hwalk.suffix).2
    rw [Walk.nil_iff] at hlast
    exact (congrArg Link.prev h.seg.1).symm.trans hlast

theorem count_sub_one {a : Addr} (h : IsQue m q out (a :: l)) : (q.count - 1).toNat = l.length := by
  have hcount := h.count
  rw [List.length_cons] at hcount
  rw [UInt32.toNat_sub_of_le _ _ (by rw [UInt32.le_iff_toNat_le]; simp; omega), hcount]
  rfl

end IsQue

/-! ### Enqueue -/

section Enqueue

variable {m : Mem} {q : QueMaster} {out : Option Addr} {l : List Addr} {data : List UInt8}
  {len : UInt64} {a : Addr}

theorem run_queEnqueue_full (ndebug : Bool) (ans : Option Addr) (h : IsQue m q out l)
    (hfull : q.capacity.toNat ≤ l.length) :
    (queEnqueue ndebug ans q data len).run m = .ok ((none, q), m.setErrno EAGAIN) := by
  have hge : q.count ≥ q.capacity := by
    rw [ge_iff_le, UInt32.le_iff_toNat_le, h.count]
    exact hfull
  simp [queEnqueue, hge, setErrno]
  rfl

theorem IsQue.not_full (h : IsQue m q out l) (hlt : l.length < q.capacity.toNat) :
    ¬q.count ≥ q.capacity := by
  rw [ge_iff_le, UInt32.le_iff_toNat_le, h.count]
  omega

theorem run_queEnqueue_noMemory (ndebug : Bool) (h : IsQue m q out l)
    (hlt : l.length < q.capacity.toNat) :
    (queEnqueue ndebug none q data len).run m = .ok ((none, q), m.setErrno ENOMEM) := by
  simp [queEnqueue, h.not_full hlt, alignedAlloc, setErrno]
  rfl

/-- What `que_enqueue` asks for, if that does not wrap around. -/
theorem nodeSize_toNat (hlen : len.toNat < 2 ^ 63) : (nodeSize len).toNat = len.toNat + 66 := by
  simp only [nodeSize, sizeofQueNode, UInt64.toNat_add, UInt64.reduceToNat]
  omega

/-- A node once it is filled. -/
def filled (data : List UInt8) (len : UInt64) (nd : QueNode) : QueNode where
  next := none
  prev := nd.prev
  len := len
  data := (data.take len.toNat ++ nd.data.drop len.toNat).take len.toNat
    ++ 0 :: (data.take len.toNat ++ nd.data.drop len.toNat).drop (len.toNat + 1)

/-- The accesses to a block of this size. -/
theorem run_checked_alloc (hlen : len.toNat < 2 ^ 63) (m : Mem)
    (hb : m.blocks a = some (nodeSize len)) {n : ℕ} (hn : n ≤ len.toNat + 66) :
    (checked (some a) n).run m = .ok (a, m) :=
  run_checked hb (by rw [nodeSize_toNat hlen]; exact hn)

theorem run_store_alloc (hlen : len.toNat < 2 ^ 63) (m : Mem)
    (hb : m.blocks a = some (nodeSize len)) (f : QueNode → QueNode) :
    (store (some a) f).run m = .ok ((), m.update a f) := by
  rw [store, run_bind_ok (run_checked_alloc hlen m hb (by simp [sizeofQueNode]))]
  rfl

theorem run_memcpyData (hlen : len.toNat < 2 ^ 63) (hdata : len.toNat ≤ data.length) (m : Mem)
    (hb : m.blocks a = some (nodeSize len)) :
    (memcpyData (some a) data len).run m = .ok ((), m.update a fun nd =>
      { nd with data := data.take len.toNat ++ nd.data.drop len.toNat }) := by
  rw [memcpyData, run_bind_ok (run_checked_alloc hlen m hb (by simp [sizeofQueNode]; omega)),
    if_neg (Nat.not_lt_of_le hdata)]
  rfl

theorem run_storeNul (hlen : len.toNat < 2 ^ 63) (m : Mem)
    (hb : m.blocks a = some (nodeSize len)) :
    (storeNul (some a) len).run m = .ok ((), m.update a fun nd =>
      { nd with data := nd.data.take len.toNat ++ 0 :: nd.data.drop (len.toNat + 1) }) := by
  rw [storeNul, run_bind_ok (run_checked_alloc hlen m hb (by simp [sizeofQueNode]; omega))]
  rfl

theorem run_enqueueFill (hlen : len.toNat < 2 ^ 63) (hdata : len.toNat ≤ data.length) (m : Mem)
    (hb : m.blocks a = some (nodeSize len)) :
    (enqueueFill a data len).run m = .ok ((), m.update a (filled data len)) := by
  rw [enqueueFill, run_bind_ok (run_store_alloc hlen m hb _),
    run_bind_ok (run_store_alloc hlen (m.update a _) hb _),
    run_bind_ok (run_memcpyData hlen hdata ((m.update a _).update a _) hb),
    run_storeNul hlen (((m.update a _).update a _).update a _) hb]
  simp only [update_update]
  rfl

theorem holds_filled (hdata : len.toNat ≤ data.length) (m : Mem) :
    (m.update a (filled data len)).Holds a (data.take len.toNat) := by
  have hlen : (data.take len.toNat).length = len.toNat := List.length_take_of_le hdata
  have htake : ∀ rest : List UInt8, (data.take len.toNat ++ rest).take len.toNat
      = data.take len.toNat := fun rest => List.take_left' hlen
  constructor
  · rw [node_update_self, hlen]
    rfl
  · rw [node_update_self, hlen]
    show ((data.take len.toNat ++ _).take len.toNat ++ 0 :: _).take (len.toNat + 1) = _
    rw [htake, List.take_append, hlen, Nat.add_sub_cancel_left, List.take_succ_cons, List.take_zero,
      List.take_of_length_le (by omega)]

/-- The memory with the new node, before it is linked. -/
def Mem.created (m : Mem) (a : Addr) (data : List UInt8) (len : UInt64) : Mem :=
  (m.install a (nodeSize len)).update a (filled data len)

theorem blocks_created (m : Mem) (a : Addr) (data : List UInt8) (len : UInt64) :
    (m.created a data len).blocks = Function.update m.blocks a (some (nodeSize len)) := rfl

theorem node_created_of_ne {x : Addr} (h : x ≠ a) (m : Mem) (data : List UInt8) (len : UInt64) :
    (m.created a data len).node x = m.node x :=
  node_update_of_ne h _

theorem wf_created (hm : m.WF) (hlen : len.toNat < 2 ^ 63) (a : Addr) (data : List UInt8) :
    (m.created a data len).WF := by
  intro x size hx
  rw [blocks_created] at hx
  by_cases hxa : x = a
  · subst hxa
    rw [Function.update_self] at hx
    rw [← Option.some.inj hx, nodeSize_toNat hlen]
    simp [sizeofQueNode]
  · rw [Function.update_of_ne hxa] at hx
    exact hm x size hx

theorem live_created_iff (m : Mem) (a : Addr) (data : List UInt8) (len : UInt64) (x : Addr) :
    (m.created a data len).Live x ↔ x = a ∨ m.Live x := by
  unfold Live
  rw [blocks_created]
  by_cases hxa : x = a
  · subst hxa
    exact iff_of_true ⟨_, Function.update_self ..⟩ (Or.inl rfl)
  · rw [Function.update_of_ne hxa, or_iff_right hxa]

theorem live_created {x : Addr} (h : m.Live x) (a : Addr) (data : List UInt8) (len : UInt64) :
    (m.created a data len).Live x :=
  (live_created_iff m a data len x).mpr (Or.inr h)

theorem live_created_self (m : Mem) (a : Addr) (data : List UInt8) (len : UInt64) :
    (m.created a data len).Live a :=
  (live_created_iff m a data len a).mpr (Or.inl rfl)

/-- `m'` and `q'` are the memory and the queue after `a` was enqueued with the payload `bytes`. -/
structure Enqueued (m m' : Mem) (q q' : QueMaster) (out : Option Addr) (l : List Addr) (a : Addr)
    (bytes : List UInt8) : Prop where
  wf : m'.WF
  queue : IsQue m' q' out (l ++ [a])
  capacity : q'.capacity = q.capacity
  fresh : ¬m.Live a
  live_iff : ∀ x, m'.Live x ↔ x = a ∨ m.Live x
  holds : m'.Holds a bytes
  others : ∀ x bs, x ≠ a → m.Holds x bs → m'.Holds x bs
  allocated : m'.allocated = m.allocated ++ [a]
  freed : m'.freed = m.freed

theorem toNat_count_add_one (h : IsQue m q out l) (hlt : l.length < q.capacity.toNat) :
    (q.count + 1).toNat = l.length + 1 := by
  have hcap := q.capacity.toNat_lt
  rw [UInt32.toNat_add, h.count]
  show (l.length + 1) % 2 ^ 32 = _
  omega

/-- The first node of an empty queue. -/
theorem enqueueLink_nil (ndebug : Bool) (hm : m.WF) (h : IsQue m q none [])
    (hlt : 0 < q.capacity.toNat) (hlen : len.toNat < 2 ^ 63) (hdata : len.toNat ≤ data.length)
    (hfresh : ¬m.Live a) :
    ∃ m' q', (enqueueLink ndebug q a).run (m.created a data len) = .ok (q', m') ∧
      Enqueued m m' q { q' with count := q'.count + 1 } none [] a (data.take len.toNat) := by
  have hwf := wf_created hm hlen a data
  have hcount := toNat_count_add_one h hlt
  have hhead : q.head = none := h.head
  have htail : q.tail = none := h.tail
  generalize hm' : (m.created a data len).update a ({ · with prev := none }) = m'
  have hblocks : m'.blocks = (m.created a data len).blocks := by
    rw [← hm']
    rfl
  -- of the new node `prev` is written, of the others nothing
  have hnode_a : m'.node a = { (m.created a data len).node a with prev := none } := by
    rw [← hm', node_update_self]
  have hnode : ∀ x, x ≠ a → m'.node x = m.node x := by
    intro x hxa
    rw [← hm', node_update_of_ne hxa, node_created_of_ne hxa]
  have hlive : m'.Live a := by
    unfold Live
    rw [hblocks]
    exact live_created_self m a data len
  refine ⟨m', { q with head := some a, tail := some a }, ?_,
    ⟨hwf.congr hblocks, ⟨rfl, rfl, ⟨?_, trivial⟩, ?_, hcount, hlt⟩, rfl, hfresh, ?_, ?_, ?_, ?_, ?_⟩⟩
  · rw [enqueueLink, if_pos hhead, run_bind_ok (run_tassert ndebug htail _ _),
      run_bind_ok (run_store hwf (live_created_self m a data len) _), hm']
    rfl
  · refine (congrArg QueNode.toLink hnode_a).trans ?_
    rw [Mem.created, node_update_self]
    rfl
  · intro x hx
    rw [List.mem_singleton.mp hx]
    exact hlive
  · intro x
    unfold Live
    rw [hblocks]
    exact live_created_iff m a data len x
  · exact (holds_filled hdata (m.install a (nodeSize len))).congr (by rw [hnode_a]; rfl)
      (by rw [hnode_a]; rfl)
  · intro x bs hxa hx
    exact hx.congr (by rw [hnode x hxa]) (by rw [hnode x hxa])
  · rw [← hm']
    rfl
  · rw [← hm']
    rfl

/-- A node behind the tail. -/
theorem enqueueLink_concat (ndebug : Bool) {t : Addr} (hm : m.WF) (h : IsQue m q out (l ++ [t]))
    (hlt : (l ++ [t]).length < q.capacity.toNat) (hlen : len.toNat < 2 ^ 63)
    (hdata : len.toNat ≤ data.length) (hfresh : ¬m.Live a) :
    ∃ m' q', (enqueueLink ndebug q a).run (m.created a data len) = .ok (q', m') ∧
      Enqueued m m' q { q' with count := q'.count + 1 } out (l ++ [t]) a
        (data.take len.toNat) := by
  have hwf := wf_created hm hlen a data
  have hcount := toNat_count_add_one h hlt
  have hhead : q.head ≠ none := by
    rw [h.head]
    simp
  have htail : q.tail = some t := by
    rw [h.tail]
    simp
  have hnodup := h.nodup
  have hne : ∀ x ∈ l ++ [t], x ≠ a := by
    rintro x hx rfl
    exact hfresh (h.live x hx)
  have hta : t ≠ a := hne t (by simp)
  have hlt' : ∀ x ∈ l, x ≠ t := by
    rintro x hx rfl
    exact (List.nodup_append.mp hnodup).2.2 x hx x (List.mem_singleton_self x) rfl
  -- the memory after both stores
  generalize hm' : ((m.created a data len).update a ({ · with prev := some t })).update t
    ({ · with next := some a }) = m'
  have hblocks : m'.blocks = (m.created a data len).blocks := by
    rw [← hm']
    rfl
  have hnode_a : m'.node a = { (m.created a data len).node a with prev := some t } := by
    rw [← hm', node_update_of_ne hta.symm, node_update_self]
  have hnode_t : m'.node t = { m.node t with next := some a } := by
    rw [← hm', node_update_self, node_update_of_ne hta, node_created_of_ne hta]
  have hnode : ∀ x, x ≠ a → x ≠ t → m'.node x = m.node x := by
    intro x hxa hxt
    rw [← hm', node_update_of_ne hxt, node_update_of_ne hxa, node_created_of_ne hxa]
  have hlive : ∀ x, m'.Live x ↔ x = a ∨ m.Live x := by
    intro x
    unfold Live
    rw [hblocks]
    exact live_created_iff m a data len x
  refine ⟨m', { q with tail := some a }, ?_,
    ⟨hwf.congr hblocks, ⟨?_, ?_, ?_, ?_, ?_, ?_⟩, rfl, hfresh, hlive, ?_, ?_, ?_, ?_⟩⟩
  · have hwf_t : ((m.created a data len).update a ({ · with prev := some t })).WF := hwf
    have hlive_t : ((m.created a data len).update a ({ · with prev := some t })).Live t :=
      live_created (h.live t (by simp)) a data len
    rw [enqueueLink, if_neg hhead, htail, run_bind_ok (run_tassert ndebug (by simp) _ _),
      run_bind_ok (run_store hwf (live_created_self m a data len) _),
      run_bind_ok (run_store hwf_t hlive_t _), hm']
    rfl
  · show q.head = _
    rw [h.head]
    simp
  · simp
  · apply h.seg.concat
    · intro x hx
      exact congrArg QueNode.toLink (hnode x (hne x (by simp [hx])) (hlt' x hx))
    · exact congrArg QueNode.toLink hnode_t
    · refine (congrArg QueNode.toLink hnode_a).trans ?_
      rw [Mem.created, node_update_self]
      rfl
  · intro x hx
    rcases List.mem_append.mp hx with hx | hx
    · exact (hlive x).mpr (Or.inr (h.live x hx))
    · exact (hlive x).mpr (Or.inl (List.mem_singleton.mp hx))
  · rw [List.length_append]
    exact hcount
  · rw [List.length_append]
    exact hlt
  · exact (holds_filled hdata (m.install a (nodeSize len))).congr (by rw [hnode_a]; rfl)
      (by rw [hnode_a]; rfl)
  · intro x bs hxa hx
    by_cases hxt : x = t
    · subst hxt
      exact hx.congr (by rw [hnode_t]) (by rw [hnode_t])
    · exact hx.congr (by rw [hnode x hxa hxt]) (by rw [hnode x hxa hxt])
  · rw [← hm']
    rfl
  · rw [← hm']
    rfl

theorem queEnqueue_spec (ndebug : Bool) (hm : m.WF) (h : IsQue m q out l)
    (hout : l = [] → out = none) (hlt : l.length < q.capacity.toNat) (hlen : len.toNat < 2 ^ 63)
    (hdata : len.toNat ≤ data.length) (halloc : m.AllocOk (nodeSize len) a) :
    ∃ m' q', (queEnqueue ndebug (some a) q data len).run m = .ok ((some a, q'), m') ∧
      Enqueued m m' q q' out l a (data.take len.toNat) := by
  have hfresh : ¬m.Live a := halloc.fresh hm (by rw [nodeSize_toNat hlen]; omega)
  have hfill : (enqueueFill a data len).run (m.install a (nodeSize len))
      = .ok ((), m.created a data len) :=
    run_enqueueFill hlen hdata (m.install a (nodeSize len)) (Function.update_self ..)
  obtain ⟨m', q', hlink, henq⟩ : ∃ m' q',
      (enqueueLink ndebug q a).run (m.created a data len) = .ok (q', m') ∧
      Enqueued m m' q { q' with count := q'.count + 1 } out l a (data.take len.toNat) := by
    rcases List.eq_nil_or_concat' l with rfl | ⟨l, t, rfl⟩
    · obtain rfl := hout rfl
      exact enqueueLink_nil ndebug hm h hlt hlen hdata hfresh
    · exact enqueueLink_concat ndebug hm h hlt hlen hdata hfresh
  refine ⟨m', _, ?_, henq⟩
  rw [queEnqueue, if_neg (h.not_full hlt), run_bind_ok (show (alignedAlloc (some a) (nodeSize len)).run m
    = .ok (some a, m.install a (nodeSize len)) from rfl)]
  dsimp only
  rw [run_bind_ok hfill, run_bind_ok hlink]
  rfl

end Enqueue

/-! ### Dequeue -/

section Dequeue

variable {m : Mem} {q : QueMaster} {out : Option Addr} {l : List Addr} {a : Addr}

theorem run_queDequeue_empty (ndebug : Bool) (h : IsQue m q out []) :
    (queDequeue ndebug q).run m = .ok ((none, q), m) := by
  have hcount := h.count_eq_zero_iff.mpr rfl
  have hhead : q.head = none := h.head
  have htail : q.tail = none := h.tail
  rw [queDequeue, if_pos hcount, run_bind_ok (run_tassert ndebug hhead _ _),
    run_bind_ok (run_tassert ndebug htail _ _)]
  rfl

/-- The head is taken, nothing is written, and the new head points back to it. -/
theorem queDequeue_spec (ndebug : Bool) (hm : m.WF) (h : IsQue m q out (a :: l)) :
    ∃ q', (queDequeue ndebug q).run m = .ok ((some a, q'), m) ∧ q'.capacity = q.capacity ∧
      IsQue m q' (if l = [] then none else some a) l := by
  have hhead : q.head = some a := h.head
  have hcount : q.count ≠ 0 := fun h0 => List.cons_ne_nil a l (h.count_eq_zero_iff.mp h0)
  have hlink : m.link a = ⟨l.head?.or none, out⟩ := h.seg.1
  have hnext : (m.node a).next = l.head? := (congrArg Link.next hlink).trans (Option.or_none ..)
  have hload := run_load hm (h.live a (List.mem_cons_self ..))
  have hlive : ∀ x ∈ l, m.Live x := fun x hx => h.live x (List.mem_cons_of_mem _ hx)
  have hle : l.length ≤ q.capacity.toNat := Nat.le_of_succ_le h.le_cap
  rw [queDequeue, if_neg hcount, hhead]
  dsimp only
  rw [run_bind_ok hload, hnext]
  cases l with
  -- the last node: the two asserts hold, and `head` and `tail` are set to NULL
  | nil =>
    have hone : q.count = 1 := by
      rw [← UInt32.toNat_inj, h.count]
      rfl
    have htail : some a = q.tail := h.tail.symm
    rw [List.head?_nil, if_pos rfl, run_bind_ok (run_tassert ndebug hone _ _),
      run_bind_ok (run_tassert ndebug htail _ _)]
    exact ⟨_, rfl, rfl, rfl, rfl, trivial, hlive, h.count_sub_one, hle⟩
  | cons b l =>
    rw [List.head?_cons, if_neg (by simp), if_neg (List.cons_ne_nil b l)]
    have htail : q.tail = (b :: l).getLast? := by
      rw [h.tail, List.getLast?_cons_cons]
    exact ⟨_, rfl, rfl, rfl, htail, h.seg.2, hlive, h.count_sub_one, hle⟩

end Dequeue

/-! ### Destroy -/

/-- `m'` is `m` after the nodes `l` were freed, in this order. -/
structure Mem.Released (m m' : Mem) (l : List Addr) : Prop where
  blocks : ∀ x, m'.blocks x = if x ∈ l then none else m.blocks x
  node : m'.node = m.node
  errno : m'.errno = m.errno
  allocated : m'.allocated = m.allocated
  freed : m'.freed = m.freed ++ l

section Destroy

variable {m m' : Mem} {l : List Addr} {a : Addr}

theorem Mem.Released.wf (h : m.Released m' l) (hm : m.WF) : m'.WF := by
  intro x size hx
  rw [h.blocks] at hx
  by_cases hxl : x ∈ l
  · rw [if_pos hxl] at hx
    cases hx
  · rw [if_neg hxl] at hx
    exact hm x size hx

theorem Mem.Released.live_iff (h : m.Released m' l) (x : Addr) :
    m'.Live x ↔ x ∉ l ∧ m.Live x := by
  unfold Live
  rw [h.blocks]
  by_cases hxl : x ∈ l
  · simp [hxl]
  · simp [hxl]

theorem released_nil (m : Mem) : m.Released m [] :=
  ⟨fun _ => (if_neg List.not_mem_nil).symm, rfl, rfl, rfl, (List.append_nil _).symm⟩

theorem released_release (m : Mem) (a : Addr) : m.Released (m.release a) [a] := by
  refine ⟨fun x => ?_, rfl, rfl, rfl, rfl⟩
  by_cases hxa : x = a
  · subst hxa
    rw [if_pos (List.mem_singleton_self x)]
    exact Function.update_self ..
  · rw [if_neg (by simpa using hxa)]
    exact Function.update_of_ne hxa ..

theorem Mem.Released.cons (h : (m.release a).Released m' l) : m.Released m' (a :: l) := by
  have hfirst := released_release m a
  refine ⟨fun x => ?_, h.node, h.errno, h.allocated, ?_⟩
  · rw [h.blocks, hfirst.blocks]
    by_cases hxl : x ∈ l
    · simp [hxl]
    · simp [hxl]
  · rw [h.freed, hfirst.freed, List.append_assoc]
    rfl

theorem run_queNodeDestroy (ha : m.Live a) :
    (queNodeDestroy (some a)).run m = .ok ((), m.release a) := by
  obtain ⟨size, hb⟩ := ha
  simp [queNodeDestroy, free, hb]
  rfl

/-- Every node is read before it is freed. -/
theorem destroyLoop_spec {fuel : ℕ} {p : Option Addr} (hm : m.WF)
    (hwalk : Walk (fun x => (m.node x).next) p l) (hlive : ∀ x ∈ l, m.Live x)
    (hfuel : l.length < fuel) :
    ∃ m', (destroyLoop fuel p).run m = .ok ((), m') ∧ m.Released m' l := by
  -- the successor is read before its node is freed, so the walk goes on from memory still live
  induction fuel generalizing m p l with
  | zero => omega
  | succ fuel ih =>
    have hnodup := hwalk.nodup
    cases hwalk with
    | nil => exact ⟨m, rfl, released_nil m⟩
    | @cons a l hwalk =>
      have ha := hlive a (List.mem_cons_self ..)
      have hrelease := released_release m a
      have hlive' : ∀ x ∈ l, (m.release a).Live x := by
        intro x hx
        refine (hrelease.live_iff x).mpr ⟨?_, hlive x (List.mem_cons_of_mem _ hx)⟩
        rw [List.mem_singleton]
        rintro rfl
        exact (List.nodup_cons.mp hnodup).1 hx
      obtain ⟨m', hrun, hrest⟩ := ih (hrelease.wf hm) hwalk hlive' (by simpa using hfuel)
      refine ⟨m', ?_, hrest.cons⟩
      rw [destroyLoop, run_bind_ok (run_load hm ha), run_bind_ok (run_queNodeDestroy ha)]
      exact hrun

/-- All linked nodes are freed, in order, and the queue has no room any more. -/
theorem queDestroy_spec {q : QueMaster} {out : Option Addr} {fuel : ℕ} (hm : m.WF)
    (h : IsQue m q out l) (hfuel : l.length < fuel) :
    ∃ m', (queDestroy fuel q).run m = .ok (⟨none, none, 0, 0⟩, m') ∧ m.Released m' l := by
  by_cases hcount : q.count = 0
  · obtain rfl := h.count_eq_zero_iff.mp hcount
    refine ⟨m, ?_, released_nil m⟩
    rw [queDestroy, if_neg (not_not_intro hcount)]
    rfl
  · obtain ⟨m', hrun, hreleased⟩ := destroyLoop_spec hm h.walk_next h.live hfuel
    refine ⟨m', ?_, hreleased⟩
    rw [queDestroy, if_pos hcount, run_bind_ok hrun]
    rfl

end Destroy

end Bluetea.Que
