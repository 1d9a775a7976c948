import Bluetea.Queue.Equiv.Detach

/-!
# The validation of `bt_qnode_detach`

For every queue that can be walked from both ends, the validating build aborts exactly when the
node is not one of those walked, and otherwise does what the release build does
(`btQnodeDetach_validates`).

The abort comes out of the validation, which gets the structure of the queue to read only, and a
fault keeps the memory in which it happens (`Stop`): it is the memory before the call, but for reads.
-/

namespace Bluetea.Queue

open DoublyLinked Machine Mem

/-! ### Queues as they are walked -/

/-- `next` leads from the head through `l`, `prev` leads from the tail back through it, and
`count` counts it.  Nothing is said about `max_el`. -/
structure Chained (m : Mem) (q : BtQueue) (l : List Addr) : Prop where
  head : Walk (fun a => (m.node a).next) q.head l
  tail : Walk (fun a => (m.node a).prev) q.tail l.reverse
  count : q.count.toNat = l.length

/-- The same queue with another bound, which detach does not look at. -/
def BtQueue.withMaxEl (q : BtQueue) (maxEl : UInt32) : BtQueue := { q with maxEl := maxEl }

section Walks

variable {m : Mem} {q : BtQueue} {l : List Addr}

/-- Up to the bound, these are the queues of the representation invariant. -/
theorem Chained.isQueue (h : Chained m q l) (hlive : ∀ a ∈ l, m.Live a) :
    IsQueue m (q.withMaxEl (.ofNat (2 ^ 32 - 1))) l ∧ IsQueue.Tight q l := by
  have htail : q.tail = l.getLast? := by
    rw [← List.head?_reverse]
    exact h.tail.head?_eq.symm
  refine ⟨⟨h.head.head?_eq.symm, fun _ => htail, Seg.of_walks h.head h.tail, hlive, h.count, ?_⟩,
    ?_⟩
  · have hlt := q.count.toNat_lt
    rw [← h.count]
    show _ ≤ 2 ^ 32 - 1
    omega
  · rintro rfl
    exact htail

theorem Chained.of_isQueue (h : IsQueue m q l) (ht : q.tail = l.getLast?) : Chained m q l :=
  ⟨h.walk_next, h.walk_prev fun hl => by rw [ht, hl]; rfl, h.count⟩

theorem detachRelink_withMaxEl (q : BtQueue) (maxEl : UInt32) (node : Option Addr) :
    detachRelink (q.withMaxEl maxEl) node
      = (·.withMaxEl maxEl) <$> detachRelink q node := by
  unfold detachRelink BtQueue.withMaxEl
  dsimp only
  split_ifs with hboth hcount hhead htail
  · rfl
  · rfl
  · simp only [map_bind, map_pure]
  · simp only [map_bind, map_pure]
  · simp only [map_bind, map_pure]

theorem btQnodeDetach_withMaxEl (b : Build) (fuel : ℕ) (q : BtQueue) (maxEl : UInt32)
    (node : Option Addr) :
    btQnodeDetach b fuel (q.withMaxEl maxEl) node
      = (fun r => (r.1, r.2.withMaxEl maxEl)) <$> btQnodeDetach b fuel q node := by
  unfold btQnodeDetach
  rw [detachRelink_withMaxEl]
  simp only [map_bind, map_pure, bind_map_left]
  rfl

end Walks

/-! ### The call -/

/-- `n` was detached from `q`, which held `l`: the rest of the queue keeps its order, the links of
`n` are cleared, and no other node, block or payload changes. -/
structure Detached (m m' : Mem) (q q' : BtQueue) (n : Addr) (l : List Addr) : Prop where
  queue : Chained m' q' (l.erase n)
  count : q'.count.toNat + 1 = q.count.toNat
  maxEl : q'.maxEl = q.maxEl
  link : m'.link n = ⟨none, none⟩
  relinked : m.Relinked m'
  frame : ∀ x, x ∉ l → m'.link x = m.link x

section Call

variable {m : Mem} {q : BtQueue} {l : List Addr} {n : Addr} {fuel : ℕ}

theorem run_map_ok {α β : Type} {f : α → β} {x : CM α} {m m' : Mem} {w : β}
    (h : (f <$> x).run m = .ok (w, m')) : ∃ v, x.run m = .ok (v, m') ∧ f v = w := by
  rw [StateT.run_map] at h
  cases hx : x.run m with
  | error e =>
    rw [hx] at h
    cases h
  | ok p =>
    rw [hx] at h
    cases h
    exact ⟨p.1, rfl, rfl⟩

/-- Detach does not change `max_el`. -/
theorem maxEl_btQnodeDetach {b : Build} {node r : Option Addr} {q' : BtQueue} {m' : Mem}
    (h : (btQnodeDetach b fuel q node).run m = .ok ((r, q'), m')) : q'.maxEl = q.maxEl := by
  have hself : btQnodeDetach b fuel q node = _ := btQnodeDetach_withMaxEl b fuel q q.maxEl node
  rw [hself] at h
  obtain ⟨v, -, hv⟩ := run_map_ok h
  rw [← congrArg (fun r => r.2.maxEl) hv]
  rfl

section

variable (hm : m.WF) (h : Chained m q l) (hlive : ∀ a ∈ l, m.Live a) (hfuel : l.length < fuel)

include hm h hlive hfuel

/-- The search does not find a node that is not there, and has only read when it gives up. -/
theorem detachValidate_absent (hn : n ∉ l) :
    ∃ site m', (detachValidate .debug fuel q (some n)).run m = .error ⟨.abort site, m'⟩ ∧
      m.Looked m' := by
  by_cases hcount : q.count = 0
  · -- the counter is looked at first, without any access
    refine ⟨.detachInvalid 1, m, ?_, .refl m⟩
    unfold detachValidate
    rw [if_pos rfl, if_pos hcount]
    rfl
  · obtain ⟨m', hrun, hlook⟩ := detachSearch_spec n hm h.head h.tail hlive
      (fun x hx => hlive x (List.mem_reverse.mp hx)) hfuel
      (by rw [List.length_reverse]; exact hfuel)
    have habsent : ¬(n ∈ l ∨ n ∈ l.reverse) := by simpa using hn
    rw [decide_eq_false habsent] at hrun
    refine ⟨.detachInvalid 2, m', ?_, hlook⟩
    unfold detachValidate
    rw [if_pos rfl, if_neg hcount]
    show (detachSearch (some n) fuel q.head q.tail >>= _).run m = _
    rw [run_bind_ok hrun]
    rfl

theorem run_btQnodeDetach_absent (hn : n ∉ l) :
    ∃ site m', (btQnodeDetach .debug fuel q (some n)).run m = .error ⟨.abort site, m'⟩ := by
  obtain ⟨site, m', hrun, -⟩ := detachValidate_absent hm h hlive hfuel hn
  exact ⟨site, m', run_bind_error hrun⟩

/-- A member is detached, in either build. -/
theorem run_btQnodeDetach_member (b : Build) (hn : n ∈ l) :
    ∃ m' q', (btQnodeDetach b fuel q (some n)).run m = .ok ((some n, q'), m') ∧
      Detached m m' q q' n l ∧ q'.head = (l.erase n).head? ∧ q'.tail = (l.erase n).getLast? := by
  obtain ⟨hqueue, -⟩ := h.isQueue hlive
  obtain ⟨l₁, l₂, rfl⟩ := List.append_of_mem hn
  have hnl₁ : n ∉ l₁ := by
    intro hmem
    exact (List.nodup_append.mp hqueue.nodup).2.2 n hmem n (List.mem_cons_self ..) rfl
  have herase : (l₁ ++ n :: l₂).erase n = l₁ ++ l₂ := by
    rw [List.erase_append_right _ hnl₁, List.erase_cons_head]
  -- the detach of a member is the same for every `max_el`, so the queue may be taken as a bounded one
  obtain ⟨m', q₁, hrun, htaken, htail⟩ := btQnodeDetach_spec b fuel hm hqueue hfuel
  rw [btQnodeDetach_withMaxEl] at hrun
  obtain ⟨⟨r, q'⟩, hrun', heq⟩ := run_map_ok hrun
  cases heq
  have hchained : Chained m' (q'.withMaxEl _) (l₁ ++ l₂) := .of_isQueue htaken.queue htail
  rw [herase]
  refine ⟨m', q', hrun', ⟨?_, ?_, maxEl_btQnodeDetach hrun', htaken.link, htaken.relinked,
    htaken.frame⟩, htaken.queue.head, htail⟩
  · rw [herase]
    exact ⟨hchained.head, hchained.tail, hchained.count⟩
  · have hcount : q'.count.toNat = (l₁ ++ l₂).length := hchained.count
    rw [hcount, h.count, List.length_append, List.length_append, List.length_cons]
    rfl

end

/-- Two ways to detach the same node end in memories with the same nodes. -/
theorem Detached.looked {m₁ m₂ : Mem} {q₁ q₂ : BtQueue} (h₁ : Detached m m₁ q q₁ n l)
    (h₂ : Detached m m₂ q q₂ n l) : m₂.Looked m₁ := by
  have hrel₁ := h₁.relinked
  have hrel₂ := h₂.relinked
  have hlink : ∀ x, m₁.link x = m₂.link x := by
    intro x
    by_cases hxl : x ∈ l
    · by_cases hx : x = n
      · rw [hx, h₁.link, h₂.link]
      · -- the links of the nodes that stay are determined by their order
        have hmem : x ∈ l.erase n := (List.mem_erase_of_ne hx).mpr hxl
        exact (Seg.of_walks h₁.queue.head h₁.queue.tail).link_eq
          (Seg.of_walks h₂.queue.head h₂.queue.tail) x hmem
    · rw [h₁.frame x hxl, h₂.frame x hxl]
  refine ⟨hrel₁.blocks.trans hrel₂.blocks.symm, ?_, hrel₁.errno.trans hrel₂.errno.symm,
    hrel₁.allocated.trans hrel₂.allocated.symm, hrel₁.freed.trans hrel₂.freed.symm⟩
  funext x
  have hlen : (m₁.node x).len = (m₂.node x).len := (hrel₁.len x).trans (hrel₂.len x).symm
  have hdata : (m₁.node x).data = (m₂.node x).data := (hrel₁.data x).trans (hrel₂.data x).symm
  have hlink' : (m₁.node x).toLink = (m₂.node x).toLink := hlink x
  cases hx₁ : m₁.node x
  cases hx₂ : m₂.node x
  rw [hx₁, hx₂] at hlen hdata hlink'
  cases hlen
  cases hdata
  cases hlink'
  rfl

/-- In the validating build the call aborts exactly for a node that is not in the queue.  The abort
is the validation's, and nothing has been written before it.  For a member the call returns what the
release build returns, and leaves the same queue and, but for the reads of the search, the same
memory. -/
theorem btQnodeDetach_validates (hm : m.WF) (h : Chained m q l) (hlive : ∀ a ∈ l, m.Live a)
    (hfuel : l.length < fuel) (n : Addr) :
    ((∃ site m', (btQnodeDetach .debug fuel q (some n)).run m = .error ⟨.abort site, m'⟩) ↔
      n ∉ l) ∧
    (∀ s, (btQnodeDetach .debug fuel q (some n)).run m = .error s →
      (detachValidate .debug fuel q (some n)).run m = .error s ∧ m.Looked s.mem) ∧
    (n ∈ l → ∃ q' m₁ m₂, (btQnodeDetach .debug fuel q (some n)).run m = .ok ((some n, q'), m₁) ∧
      (btQnodeDetach .ndebug fuel q (some n)).run m = .ok ((some n, q'), m₂) ∧
      m₂.Looked m₁ ∧ Detached m m₁ q q' n l) := by
  have hmember : n ∈ l → ∃ q' m₁ m₂,
      (btQnodeDetach .debug fuel q (some n)).run m = .ok ((some n, q'), m₁) ∧
      (btQnodeDetach .ndebug fuel q (some n)).run m = .ok ((some n, q'), m₂) ∧
      m₂.Looked m₁ ∧ Detached m m₁ q q' n l := by
    intro hn
    obtain ⟨m₁, q₁, hrun₁, hd₁, hhead₁, htail₁⟩ :=
      run_btQnodeDetach_member hm h hlive hfuel .debug hn
    obtain ⟨m₂, q₂, hrun₂, hd₂, hhead₂, htail₂⟩ :=
      run_btQnodeDetach_member hm h hlive hfuel .ndebug hn
    -- the queues of the two builds agree field by field
    have hq : q₁ = q₂ := by
      have hcount : q₁.count = q₂.count := by
        rw [← UInt32.toNat_inj, hd₁.queue.count, hd₂.queue.count]
      have hmax := hd₁.maxEl.trans hd₂.maxEl.symm
      have hhead := hhead₁.trans hhead₂.symm
      have htail := htail₁.trans htail₂.symm
      cases q₁
      cases q₂
      cases hcount
      cases hmax
      cases hhead
      cases htail
      rfl
    exact ⟨q₁, m₁, m₂, hrun₁, hq ▸ hrun₂, hd₁.looked hd₂, hd₁⟩
  refine ⟨⟨?_, run_btQnodeDetach_absent hm h hlive hfuel⟩, ?_, hmember⟩
  · rintro ⟨site, m', habort⟩ hn
    obtain ⟨q', m₁, -, hrun, -⟩ := hmember hn
    rw [hrun] at habort
    cases habort
  · intro s hstop
    by_cases hn : n ∈ l
    · obtain ⟨q', m₁, -, hrun, -⟩ := hmember hn
      rw [hrun] at hstop
      cases hstop
    · -- nothing runs behind the validation, so its fault is the fault of the call
      obtain ⟨site, m', hrun, hlook⟩ := detachValidate_absent hm h hlive hfuel hn
      have hcall : (btQnodeDetach .debug fuel q (some n)).run m = .error ⟨.abort site, m'⟩ :=
        run_bind_error hrun
      rw [hcall] at hstop
      cases hstop
      exact ⟨hrun, hlook⟩

end Call

/-! ### A queue of three nodes -/

/-- A new block of a node with two bytes of payload. -/
def withBlock (m : Mem) (orig : UInt64) : Mem :=
  m.install (userOf orig) ⟨orig, nodeSize 2, shiftOf orig⟩

/-- Four nodes, of which the first three are linked to each other. -/
def threeLinked : Mem :=
  { withBlock (withBlock (withBlock (withBlock .empty 0x1000) 0x2000) 0x3000) 0x4000 with
    node := fun a =>
      if a = 0x1040 then ⟨⟨some 0x2040, none⟩, 2, [104, 105]⟩
      else if a = 0x2040 then ⟨⟨some 0x3040, some 0x1040⟩, 1, [104]⟩
      else if a = 0x3040 then ⟨⟨none, some 0x2040⟩, 0, []⟩
      else ⟨⟨none, none⟩, 2, [104, 105]⟩ }

/-- The three nodes, in order. -/
def threeNodes : List Addr := [0x1040, 0x2040, 0x3040]

/-- Their queue. -/
def threeQueue : BtQueue := ⟨some 0x1040, some 0x3040, 3, 8⟩

theorem withBlock_wf {m : Mem} (orig : UInt64) (hm : m.WF) (h : m.MallocOk (nodeSize 2) orig) :
    (withBlock m orig).WF := hm.install (by decide) h

theorem threeLinked_wf : threeLinked.WF := by
  have h₁ : (withBlock .empty 0x1000).WF := withBlock_wf 0x1000 wf_empty
    (mallocOk_of_blocksOf [] rfl (by decide) (by decide) (by decide))
  have h₂ := withBlock_wf 0x2000 h₁ (mallocOk_of_blocksOf
    [(0x1040, some ⟨0x1000, nodeSize 2, 0x40⟩)] rfl (by decide) (by decide) (by decide))
  have h₃ := withBlock_wf 0x3000 h₂ (mallocOk_of_blocksOf
    [(0x2040, some ⟨0x2000, nodeSize 2, 0x40⟩), (0x1040, some ⟨0x1000, nodeSize 2, 0x40⟩)]
    rfl (by decide) (by decide) (by decide))
  have h₄ := withBlock_wf 0x4000 h₃ (mallocOk_of_blocksOf
    [(0x3040, some ⟨0x3000, nodeSize 2, 0x40⟩), (0x2040, some ⟨0x2000, nodeSize 2, 0x40⟩),
      (0x1040, some ⟨0x1000, nodeSize 2, 0x40⟩)] rfl (by decide) (by decide) (by decide))
  exact h₄.congr rfl

theorem threeLinked_live : ∀ a ∈ threeNodes, threeLinked.Live a := by
  intro a ha
  simp only [threeNodes, List.mem_cons, List.not_mem_nil, or_false] at ha
  rcases ha with rfl | rfl | rfl
  · exact ⟨⟨0x1000, nodeSize 2, 0x40⟩, rfl⟩
  · exact ⟨⟨0x2000, nodeSize 2, 0x40⟩, rfl⟩
  · exact ⟨⟨0x3000, nodeSize 2, 0x40⟩, rfl⟩

/-- The node in the middle is detached, and the fourth node, which is in no queue, stops the call. -/
theorem btQnodeDetach_validates_three :
    (∃ q' m₁ m₂, (btQnodeDetach .debug 4 threeQueue (some 0x2040)).run threeLinked
        = .ok ((some 0x2040, q'), m₁) ∧
      (btQnodeDetach .ndebug 4 threeQueue (some 0x2040)).run threeLinked
        = .ok ((some 0x2040, q'), m₂) ∧
      m₂.Looked m₁ ∧ Detached threeLinked m₁ threeQueue q' 0x2040 threeNodes ∧
      threeNodes.erase 0x2040 = [0x1040, 0x3040]) ∧
    ∃ site m', (btQnodeDetach .debug 4 threeQueue (some 0x4040)).run threeLinked
        = .error ⟨.abort site, m'⟩ ∧
      (detachValidate .debug 4 threeQueue (some 0x4040)).run threeLinked
        = .error ⟨.abort site, m'⟩ ∧ threeLinked.Looked m' := by
  have hchained : Chained threeLinked threeQueue threeNodes :=
    ⟨.cons (.cons (.cons .nil)), .cons (.cons (.cons .nil)), rfl⟩
  have hfuel : threeNodes.length < 4 := by decide
  obtain ⟨-, -, hmember⟩ :=
    btQnodeDetach_validates threeLinked_wf hchained threeLinked_live hfuel 0x2040
  obtain ⟨habort, hstop, -⟩ :=
    btQnodeDetach_validates threeLinked_wf hchained threeLinked_live hfuel 0x4040
  constructor
  · obtain ⟨q', m₁, m₂, h₁, h₂, hlook, hd⟩ := hmember (by decide)
    exact ⟨q', m₁, m₂, h₁, h₂, hlook, hd, by decide⟩
  · obtain ⟨site, m', hrun⟩ := habort.mpr (by decide)
    exact ⟨site, m', hrun, hstop _ hrun⟩

end Bluetea.Queue
