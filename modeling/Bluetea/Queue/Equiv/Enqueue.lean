import Bluetea.Queue.Equiv.Take

/-!
# Enqueue

`bt_queue_enqueue` refuses when the queue is full, reports when there is no memory, and otherwise
appends a node that holds the given bytes.  In the debug build this needs a tight tail pointer:
on an empty queue whose tail is not null the assertion fails (`run_btQueueEnqueue_assert`).
-/

namespace Bluetea.Queue

open DoublyLinked Machine Mem

variable {m : Mem} {q : BtQueue} {l : List Addr} {data : List UInt8} {len : UInt64}

theorem run_btQueueEnqueue_full (b : Build) (ans : Option UInt64) (h : IsQueue m q l)
    (hfull : q.maxEl.toNat ≤ l.length) :
    (btQueueEnqueue b ans q data len).run m = .ok ((none, q), m.setErrno EAGAIN) := by
  have hge : q.count ≥ q.maxEl := by
    rw [ge_iff_le, UInt32.le_iff_toNat_le, h.count]
    exact hfull
  unfold btQueueEnqueue
  rw [if_pos hge]
  rfl

theorem IsQueue.not_full (h : IsQueue m q l) (hlt : l.length < q.maxEl.toNat) :
    ¬q.count ≥ q.maxEl := by
  rw [ge_iff_le, UInt32.le_iff_toNat_le, h.count]
  omega

theorem run_btQueueEnqueue_noMemory (b : Build) (h : IsQueue m q l)
    (hlt : l.length < q.maxEl.toNat) :
    (btQueueEnqueue b none q data len).run m = .ok ((none, q), m.setErrno ENOMEM) := by
  unfold btQueueEnqueue
  rw [if_neg (h.not_full hlt)]
  rfl

/-! ### Filling the new node -/

/-- The memory after the header and the payload of the node `a` were written. -/
def filled (m : Mem) (a : Addr) (data : List UInt8) (len : UInt64) : Mem :=
  (((((m.setNext a none).setPrev a none).update a ({ · with len := len })).log
    (.write a)).update a fun n =>
      { n with data := data.take len.toNat ++ n.data.drop len.toNat }).log (.write a)

theorem node_filled_of_ne (m : Mem) {a x : Addr} (hx : x ≠ a) :
    (filled m a data len).node x = m.node x := by
  simp [filled, setNext, setPrev, update, log, hx]

theorem node_filled (m : Mem) (a : Addr) : (filled m a data len).node a =
    ⟨⟨none, none⟩, len, data.take len.toNat ++ (m.node a).data.drop len.toNat⟩ := by
  simp [filled, setNext, setPrev, update, log]

theorem link_filled (m : Mem) (a : Addr) :
    (filled m a data len).link = Function.update m.link a ⟨none, none⟩ := by
  funext x
  by_cases hx : x = a
  · subst hx
    rw [Function.update_self, link, node_filled]
  · rw [Function.update_of_ne hx, link, node_filled_of_ne m hx, link]

theorem freed_filled (m : Mem) (a : Addr) : (filled m a data len).freed = m.freed := by
  simp only [filled, freed_log, Event.freed?, Option.toList_none, List.append_nil]
  show (((m.setNext a none).setPrev a none).log _).freed = _
  rw [freed_log, (relinked_setPrev _ a none).freed, (relinked_setNext m a none).freed]
  simp [Event.freed?]

theorem allocated_filled (m : Mem) (a : Addr) :
    (filled m a data len).allocated = m.allocated := by
  simp only [filled, allocated_log, Event.alloced?, Option.toList_none, List.append_nil]
  show (((m.setNext a none).setPrev a none).log _).allocated = _
  rw [allocated_log, (relinked_setPrev _ a none).allocated, (relinked_setNext m a none).allocated]
  simp [Event.alloced?]

theorem run_memcpyData {a : Addr} {b : Block} (hb : m.blocks a = some b)
    (hroom : b.Contains a.toNat (sizeofBtQnode.toNat + len.toNat))
    (hdata : len.toNat ≤ data.length) :
    (memcpyData (some a) data len).run m = .ok ((), (m.update a fun n =>
      { n with data := data.take len.toNat ++ n.data.drop len.toNat }).log (.write a)) := by
  rw [memcpyData, run_bind_ok (run_checked hb hroom), if_neg (by omega)]
  rfl

theorem run_enqueueFill {a : Addr} {b : Block} (hm : m.WF) (hb : m.blocks a = some b)
    (hroom : b.Contains a.toNat (sizeofBtQnode.toNat + len.toNat + 1))
    (hdata : len.toNat ≤ data.length) :
    (enqueueFill a data len).run m = .ok ((), filled m a data len) := by
  have ha : m.Live a := ⟨b, hb⟩
  have hm₁ := (relinked_setNext m a none).wf hm
  have hm₂ := (relinked_setPrev (m.setNext a none) a none).wf hm₁
  have hroom' : b.Contains a.toNat (sizeofBtQnode.toNat + len.toNat) :=
    ⟨hroom.1, by have := hroom.2; omega⟩
  rw [enqueueFill, run_bind_ok (run_store_next hm ha _), run_bind_ok (run_store_prev hm₁ ha _),
    run_bind_ok (run_store hm₂ ha _)]
  exact run_memcpyData hb hroom' hdata

/-- Creating and filling a node. -/
theorem created_filled {orig : UInt64} (hm : m.WF) (hlen : len.toNat + 129 < 2 ^ 64)
    (hans : m.MallocOk (nodeSize len) orig) (hdata : len.toNat ≤ data.length) :
    ∃ m₁ m₂, (btQnodeCreate (some orig) len).run m = .ok (some (userOf orig), m₁) ∧
      (enqueueFill (userOf orig) data len).run m₁ = .ok ((), m₂) ∧
      m.Created m₂ (userOf orig) (data.take len.toNat) ∧
      m₂.link = Function.update m.link (userOf orig) ⟨none, none⟩ := by
  have hwf : (((m.install (userOf orig) ⟨orig, nodeSize len, shiftOf orig⟩).log
      (.alloc (userOf orig))).log (.write (userOf orig))).WF := (hm.install hlen hans).congr rfl
  have hsize : (data.take len.toNat).length = len.toNat := by
    rw [List.length_take]
    omega
  refine ⟨_, _, run_btQnodeCreate hlen hans,
    run_enqueueFill hwf (Function.update_self ..) (userOf_room hlen hans.no_wrap) hdata, ?_,
    link_filled ..⟩
  -- every other block and node is as it was; the new one holds the data and is booked as allocated
  refine ⟨hans.fresh hm hlen, ⟨_, Function.update_self ..⟩, hwf.congr rfl, ?_, ?_, ⟨?_, ?_⟩, rfl,
    ?_, ?_⟩
  · intro x hx
    exact Function.update_of_ne hx ..
  · intro x hx
    exact node_filled_of_ne _ hx
  · rw [node_filled, hsize]
  · rw [node_filled, hsize, List.take_left' hsize]
  · rw [allocated_filled, allocated_log, allocated_log]
    simp [Event.alloced?, allocated, Mem.install]
  · rw [freed_filled, freed_log, freed_log]
    simp [Event.freed?, freed, Mem.install]

/-! ### Linking it -/

section Link

variable {a : Addr} {bytes : List UInt8} {m₂ : Mem}

/-- A queue survives the creation of a node. -/
theorem IsQueue.of_created (h : IsQueue m q l) (hc : m.Created m₂ a bytes)
    (hlink : m₂.link = Function.update m.link a ⟨none, none⟩) : IsQueue m₂ q l := by
  have hne : ∀ x ∈ l, x ≠ a := by
    rintro x hx rfl
    exact hc.fresh (h.live x hx)
  refine h.congr (fun x hx => ?_) fun x hx => ?_
  · rw [hlink, Function.update_of_ne (hne x hx)]
  · obtain ⟨b, hb⟩ := h.live x hx
    exact ⟨b, (hc.blocks x (hne x hx)).trans hb⟩

/-- `m'` and `q'` are `m₂` and `q` with the new node `a` linked behind `l`. -/
structure Linked (m m₂ m' : Mem) (q q' : BtQueue) (a : Addr) (l : List Addr) : Prop where
  relinked : m₂.Relinked m'
  queue : IsQueue m' q' (l ++ [a])
  tail : q'.tail = some a
  maxEl : q'.maxEl = q.maxEl
  frame : ∀ x, x ∉ l → x ≠ a → m'.link x = m.link x

theorem toNat_count_add_one (h : IsQueue m q l) (hlt : l.length < q.maxEl.toNat) :
    (q.count + 1).toNat = l.length + 1 := by
  have hmax := q.maxEl.toNat_lt
  rw [UInt32.toNat_add, h.count]
  simp only [UInt32.reduceToNat]
  omega

/-- In an empty queue both ends are set, and no link is written. -/
theorem enqueueLink_nil (b : Build) (h : IsQueue m q []) (hlt : 0 < q.maxEl.toNat)
    (hc : m.Created m₂ a bytes) (hlink : m₂.link = Function.update m.link a ⟨none, none⟩)
    (htight : b = .debug → IsQueue.Tight q []) :
    ∃ m' q', (enqueueLink b { q with count := q.count + 1 } a).run m₂ = .ok (q', m') ∧
      Linked m m₂ m' q q' a [] := by
  have hla : m₂.link a = ⟨none, none⟩ := by rw [hlink, Function.update_self]
  have hlive : ∀ x ∈ [a], m₂.Live x := by
    intro x hx
    rw [List.mem_singleton.mp hx]
    exact hc.live
  have hhead : q.head = none := h.head
  -- a queue of the debug build that is empty has no tail left over
  have hassert : (btAssert b (q.tail = none) .enqueueTail).run m₂ = .ok ((), m₂) := by
    rw [btAssert, if_neg]
    · rfl
    · rintro ⟨hb, htail⟩
      exact htail (htight hb rfl)
  refine ⟨m₂, ⟨some a, some a, q.count + 1, q.maxEl⟩, ?_, .refl m₂,
    ⟨rfl, fun _ => rfl, ⟨hla, trivial⟩, hlive, toNat_count_add_one h hlt, hlt⟩, rfl, rfl, ?_⟩
  · simp only [enqueueLink, hhead, ↓reduceIte]
    rw [run_bind_ok hassert]
    rfl
  · intro x _ hx
    rw [hlink, Function.update_of_ne hx]

/-- The links behind the stores to the new node `a` and to the last node `t`. -/
theorem link_relinked (m : Mem) {t x : Addr} (hxt : x ≠ t) (hxa : x ≠ a) :
    ((m.setPrev a (some t)).setNext t (some a)).link x = m.link x := by
  rw [link_setNext, Function.update_of_ne hxt, link_setPrev, Function.update_of_ne hxa]

theorem seg_relinked {t : Addr} (hseg : Seg m.link none (l ++ [t]) none) (hnodup : (l ++ [t]).Nodup)
    (ha : a ∉ l ++ [t]) (hla : m.link a = ⟨none, none⟩) :
    Seg ((m.setPrev a (some t)).setNext t (some a)).link none (l ++ [t] ++ [a]) none := by
  have hta : t ≠ a := fun hta => ha (hta ▸ List.mem_concat_self)
  -- of the old nodes only the last one is written
  apply hseg.concat
  · intro x hx
    have hxt : x ≠ t := by
      rintro rfl
      exact (List.nodup_append.mp hnodup).2.2 x hx x (List.mem_singleton_self x) rfl
    have hxa : x ≠ a := by
      rintro rfl
      exact ha (List.mem_append_left _ hx)
    exact link_relinked m hxt hxa
  · rw [link_setNext, Function.update_self, link_setPrev, Function.update_of_ne hta]
  · rw [link_setNext, Function.update_of_ne hta.symm, link_setPrev, Function.update_self, hla]

/-- In any other one the last node `t` and the new one are linked to each other. -/
theorem enqueueLink_concat (b : Build) {t : Addr} (h : IsQueue m q (l ++ [t]))
    (hlt : (l ++ [t]).length < q.maxEl.toNat) (hc : m.Created m₂ a bytes)
    (hlink : m₂.link = Function.update m.link a ⟨none, none⟩) :
    ∃ m' q', (enqueueLink b { q with count := q.count + 1 } a).run m₂ = .ok (q', m') ∧
      Linked m m₂ m' q q' a (l ++ [t]) := by
  have hq₂ := h.of_created hc hlink
  have hla : m₂.link a = ⟨none, none⟩ := by rw [hlink, Function.update_self]
  have ha : a ∉ l ++ [t] := fun hmem => hc.fresh (h.live a hmem)
  have hlive : ∀ x ∈ l ++ [t] ++ [a], m₂.Live x := by
    intro x hx
    rcases List.mem_append.mp hx with hx | hx
    · exact hq₂.live x hx
    · rw [List.mem_singleton.mp hx]
      exact hc.live
  have hhead : q.head ≠ none := by
    rw [h.head]
    simp
  have htail : q.tail = some t := by
    rw [h.tail (by simp)]
    simp
  refine ⟨(m₂.setPrev a (some t)).setNext t (some a), ⟨q.head, some a, q.count + 1, q.maxEl⟩,
    ?_, (relinked_setPrev m₂ a _).trans (relinked_setNext _ t _), ?_, rfl, rfl, ?_⟩
  · simp only [enqueueLink, hhead, htail, ↓reduceIte]
    rw [run_bind_ok (run_store_prev hc.wf hc.live _), run_bind_ok (run_store_next
      ((relinked_setPrev m₂ a _).wf hc.wf) (hq₂.live t (by simp)) _)]
    rfl
  · refine ⟨?_, fun _ => by simp, seg_relinked hq₂.seg h.nodup ha hla, hlive, ?_, ?_⟩
    · show q.head = _
      rw [h.head]
      simp
    · rw [List.length_append]
      exact toNat_count_add_one h hlt
    · rw [List.length_append]
      exact hlt
  · -- the nodes elsewhere are as they were
    intro x hx hxa
    simp only [List.mem_append, List.mem_singleton, not_or] at hx
    rw [link_relinked m₂ hx.2 hxa, hlink, Function.update_of_ne hxa]

/-- Linking the new node at the end. -/
theorem enqueueLink_spec (b : Build) (h : IsQueue m q l) (hlt : l.length < q.maxEl.toNat)
    (hc : m.Created m₂ a bytes) (hlink : m₂.link = Function.update m.link a ⟨none, none⟩)
    (htight : b = .debug → IsQueue.Tight q l) :
    ∃ m' q', (enqueueLink b { q with count := q.count + 1 } a).run m₂ = .ok (q', m') ∧
      Linked m m₂ m' q q' a l := by
  cases l using List.reverseRecOn with
  | nil => exact enqueueLink_nil b h hlt hc hlink htight
  | append_singleton l t => exact enqueueLink_concat b h hlt hc hlink

end Link

/-! ### The whole function -/

/-- `m'` and `q'` are `m` and `q` with the new node `a`, which holds `bytes`, at the end of `l`. -/
structure Enqueued (m m' : Mem) (q q' : BtQueue) (a : Addr) (bytes : List UInt8)
    (l : List Addr) : Prop where
  fresh : ¬m.Live a
  live : m'.Live a
  wf : m'.WF
  blocks : ∀ x, x ≠ a → m'.blocks x = m.blocks x
  holds : m'.Holds a bytes
  others : ∀ x bs, x ≠ a → m.Holds x bs → m'.Holds x bs
  queue : IsQueue m' q' (l ++ [a])
  tail : q'.tail = some a
  maxEl : q'.maxEl = q.maxEl
  frame : ∀ x, x ∉ l → x ≠ a → m'.link x = m.link x
  errno : m'.errno = m.errno
  allocated : m'.allocated = m.allocated ++ [a]
  freed : m'.freed = m.freed

theorem Enqueued.live_iff {m' : Mem} {q' : BtQueue} {a : Addr} {bytes : List UInt8}
    (h : Enqueued m m' q q' a bytes l) (x : Addr) : m'.Live x ↔ x = a ∨ m.Live x := by
  by_cases hx : x = a
  · rw [hx]
    exact iff_of_true h.live (Or.inl rfl)
  · unfold Live
    rw [h.blocks x hx, or_iff_right hx]

section Enqueue

variable {orig : UInt64} (hm : m.WF) (h : IsQueue m q l) (hlt : l.length < q.maxEl.toNat)
  (hlen : len.toNat + 129 < 2 ^ 64) (hans : m.MallocOk (nodeSize len) orig)
  (hdata : len.toNat ≤ data.length)

include hm h hlt hlen hans hdata

/-- Enqueue appends a node that holds the first `len` bytes of `data`. -/
theorem btQueueEnqueue_spec (b : Build) (htight : b = .debug → IsQueue.Tight q l) :
    ∃ m' q', (btQueueEnqueue b (some orig) q data len).run m
        = .ok ((some (userOf orig), q'), m') ∧
      Enqueued m m' q q' (userOf orig) (data.take len.toNat) l := by
  obtain ⟨m₁, m₂, hcreate, hfill, hc, hlink⟩ := created_filled hm hlen hans hdata
  obtain ⟨m', q', hrun, hlinked⟩ := enqueueLink_spec b h hlt hc hlink htight
  have hrel := hlinked.relinked
  refine ⟨m', q', ?_, hc.fresh, hrel.live_iff.mpr hc.live, hrel.wf hc.wf, ?_, hrel.holds hc.holds,
    fun x bs hx hbs => hrel.holds ?_, hlinked.queue, hlinked.tail, hlinked.maxEl, hlinked.frame,
    hrel.errno.trans hc.errno, hrel.allocated.trans hc.allocated, hrel.freed.trans hc.freed⟩
  · rw [btQueueEnqueue, if_neg (h.not_full hlt), run_bind_ok hcreate]
    dsimp only
    rw [run_bind_ok hfill, run_bind_ok hrun]
    rfl
  · intro x hx
    rw [hrel.blocks, hc.blocks x hx]
  · exact ⟨by rw [hc.node x hx]; exact hbs.len, by rw [hc.node x hx]; exact hbs.data⟩

/-- The assertion of the debug build fails on an empty queue whose tail is not null. -/
theorem run_btQueueEnqueue_assert (hl : l = []) (htail : q.tail ≠ none) :
    ∃ m', (btQueueEnqueue .debug (some orig) q data len).run m
      = .error ⟨.abort .enqueueTail, m'⟩ := by
  obtain ⟨m₁, m₂, hcreate, hfill, -, -⟩ := created_filled hm hlen hans hdata
  have hhead : q.head = none := by
    rw [h.head, hl]
    rfl
  have hassert : (btAssert .debug (q.tail = none) .enqueueTail).run m₂
      = .error ⟨.abort .enqueueTail, m₂⟩ := by
    rw [btAssert, if_pos ⟨rfl, htail⟩]
    rfl
  -- the node has been created and filled when the assert fails, so it is lost
  refine ⟨m₂, ?_⟩
  rw [btQueueEnqueue, if_neg (h.not_full hlt), run_bind_ok hcreate]
  dsimp only
  rw [run_bind_ok hfill, run_bind_error]
  simp only [enqueueLink, hhead, ↓reduceIte]
  rw [run_bind_error hassert]

end Enqueue

end Bluetea.Queue
