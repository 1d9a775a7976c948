import Bluetea.Queue.Equiv.Take

/-!
# Detach

The validating search walks from both ends at once; over two walks that end it terminates and
finds the node exactly when one of them visits it (`detachSearch_spec`).  The relinking has four
cases, by what is left of the node on either side (`detachRelink_spec`); together they take the
node out of any position (`btQnodeDetach_spec`), in both builds alike.
-/

namespace Bluetea.Queue

open DoublyLinked Machine Mem

variable {m : Mem} {q : BtQueue}

/-! ### The two-ended search -/

/-- One step of one of the two pointers along its walk. -/
theorem advance_spec (f : BtQnode → Option Addr) {p : Option Addr} {l : List Addr} (hm : m.WF)
    (hwalk : Walk (fun x => f (m.node x)) p l) (hlive : ∀ x ∈ l, m.Live x) :
    ∃ p' m', (advance p f).run m = .ok (p', m') ∧ m.Looked m' ∧
      Walk (fun x => f (m.node x)) p' l.tail := by
  cases hwalk with
  | nil => exact ⟨none, m, rfl, .refl m, .nil⟩
  | @cons a l hwalk =>
    refine ⟨f (m.node a), m.log (.read a), ?_, looked_read m a, hwalk⟩
    simp only [advance, Option.isSome_some, ↓reduceIte]
    rw [run_bind_ok (run_load hm (hlive a (List.mem_cons_self ..)))]
    rfl

/-- One turn of the search.  The second pointer advances in the memory that the first one has logged
its read to. -/
theorem advance_both {head tail : Option Addr} {s t : List Addr} (hm : m.WF)
    (hs : Walk (fun x => (m.node x).next) head s) (ht : Walk (fun x => (m.node x).prev) tail t)
    (hslive : ∀ x ∈ s, m.Live x) (htlive : ∀ x ∈ t, m.Live x) :
    ∃ head' tail' m₁ m₂, (advance head (·.next)).run m = .ok (head', m₁) ∧
      (advance tail (·.prev)).run m₁ = .ok (tail', m₂) ∧ m.Looked m₂ ∧
      Walk (fun x => (m₂.node x).next) head' s.tail ∧
      Walk (fun x => (m₂.node x).prev) tail' t.tail := by
  obtain ⟨head', m₁, hrun₁, hlook₁, hs'⟩ := advance_spec (·.next) hm hs hslive
  have hm₁ := hlook₁.relinked.wf hm
  have htlive₁ : ∀ x ∈ t, m₁.Live x := fun x hx => hlook₁.relinked.live_iff.mpr (htlive x hx)
  rw [← hlook₁.node] at ht
  obtain ⟨tail', m₂, hrun₂, hlook₂, ht'⟩ := advance_spec (·.prev) hm₁ ht htlive₁
  have hlook := hlook₁.trans hlook₂
  rw [hlook₁.node, ← hlook.node] at ht'
  rw [← hlook.node] at hs'
  exact ⟨head', tail', m₁, m₂, hrun₁, hrun₂, hlook, hs', ht'⟩

/-- What is not the first element is looked for in the tail. -/
theorem mem_tail_iff {a : Addr} {p : Option Addr} {l : List Addr} (hhead : l.head? = p)
    (hp : p ≠ some a) : a ∈ l.tail ↔ a ∈ l := by
  cases l with
  | nil => simp
  | cons b l =>
    have hab : a ≠ b := by
      rintro rfl
      exact hp hhead.symm
    simp [hab]

theorem detachSearch_spec (a : Addr) {fuel : ℕ} {head tail : Option Addr} {s t : List Addr}
    (hm : m.WF) (hs : Walk (fun x => (m.node x).next) head s)
    (ht : Walk (fun x => (m.node x).prev) tail t) (hslive : ∀ x ∈ s, m.Live x)
    (htlive : ∀ x ∈ t, m.Live x) (hsf : s.length < fuel) (htf : t.length < fuel) :
    ∃ m', (detachSearch (some a) fuel head tail).run m = .ok (decide (a ∈ s ∨ a ∈ t), m') ∧
      m.Looked m' := by
  induction fuel generalizing m head tail s t with
  | zero => omega
  | succ fuel ih =>
    rw [detachSearch]
    by_cases hnil : head = none ∧ tail = none
    · -- both walks are over
      obtain ⟨rfl, rfl⟩ := hnil
      obtain rfl := Walk.none_iff.mp hs
      obtain rfl := Walk.none_iff.mp ht
      exact ⟨m, rfl, .refl m⟩
    -- one of the walks goes on, so there is fuel for another turn
    have hfuel : 0 < fuel := by
      by_contra h0
      obtain rfl := List.length_eq_zero_iff.mp (show s.length = 0 by omega)
      obtain rfl := List.length_eq_zero_iff.mp (show t.length = 0 by omega)
      exact hnil ⟨Walk.nil_iff.mp hs, Walk.nil_iff.mp ht⟩
    rw [if_neg hnil]
    by_cases hfound : head = some a ∨ tail = some a
    · refine ⟨m, ?_, .refl m⟩
      have hmem : a ∈ s ∨ a ∈ t :=
        hfound.imp (fun h => List.mem_of_mem_head? (hs.head?_eq.trans h))
          fun h => List.mem_of_mem_head? (ht.head?_eq.trans h)
      rw [if_pos hfound, decide_eq_true hmem]
      rfl
    -- neither pointer is at the node, so it is in the tail of one of the walks or in none
    rw [if_neg hfound]
    obtain ⟨head', tail', m₁, m₂, hrun₁, hrun₂, hlook, hs', ht'⟩ :=
      advance_both hm hs ht hslive htlive
    have hlive : ∀ x, m.Live x → m₂.Live x := fun x => hlook.relinked.live_iff.mpr
    rw [run_bind_ok hrun₁, run_bind_ok hrun₂]
    obtain ⟨m', hrun, hlook'⟩ := ih (hlook.relinked.wf hm) hs' ht'
      (fun x hx => hlive x (hslive x (List.mem_of_mem_tail hx)))
      (fun x hx => hlive x (htlive x (List.mem_of_mem_tail hx)))
      (by rw [List.length_tail]; omega) (by rw [List.length_tail]; omega)
    refine ⟨m', ?_, hlook.trans hlook'⟩
    rw [hrun]
    simp only [not_or] at hfound
    rw [decide_eq_decide.mpr (or_congr (mem_tail_iff hs.head?_eq hfound.1)
      (mem_tail_iff ht.head?_eq hfound.2))]

/-! ### Relinking -/

/-- The links and end pointers after `a` was taken out of `l`, before its own links are cleared. -/
structure Unlinked (m m' : Mem) (q q' : BtQueue) (l l' : List Addr) : Prop where
  relinked : m.Relinked m'
  head : q'.head = l'.head?
  tail : q'.tail = l'.getLast?
  count : q'.count = q.count
  maxEl : q'.maxEl = q.maxEl
  seg : Seg m'.link none l' none
  frame : ∀ x, x ∉ l → m'.link x = m.link x

section Relink

variable {l₁ l₂ : List Addr} {a : Addr}

/-- What a queue says about the node between `l₁` and `l₂`. -/
theorem IsQueue.split (h : IsQueue m q (l₁ ++ a :: l₂)) :
    Seg m.link none l₁ (some a) ∧ m.link a = ⟨l₂.head?, l₁.getLast?⟩ ∧
      Seg m.link (some a) l₂ none := by
  have hseg := seg_append.mp h.seg
  simpa using hseg

/-- The node is the head when nothing stands in front of it. -/
theorem IsQueue.eq_head_iff (h : IsQueue m q (l₁ ++ a :: l₂)) : some a = q.head ↔ l₁ = [] := by
  rw [h.head]
  cases l₁ with
  | nil => simp
  | cons c l₁ =>
    have hac : a ≠ c := by
      rintro rfl
      simpa using h.nodup
    simpa using hac

theorem IsQueue.eq_tail_iff (h : IsQueue m q (l₁ ++ a :: l₂)) : some a = q.tail ↔ l₂ = [] := by
  rw [h.tail (by simp), List.getLast?_append, List.getLast?_cons]
  cases l₂ using List.reverseRecOn with
  | nil => simp
  | append_singleton l₂ c =>
    have hac : a ≠ c := by
      rintro rfl
      have hnodup := (List.nodup_cons.mp (List.nodup_append.mp h.nodup).2.1).1
      simp at hnodup
    simpa using hac

/-- The only node. -/
theorem detachRelink_only (h : IsQueue m q [a]) :
    ∃ m' q', (detachRelink q (some a)).run m = .ok (q', m') ∧ Unlinked m m' q q' [a] [] := by
  have hcount : q.count = 1 := by
    rw [← UInt32.toNat_inj, h.count]
    rfl
  refine ⟨m, { q with head := none, tail := none }, ?_,
    ⟨.refl m, rfl, rfl, rfl, rfl, trivial, fun _ _ => rfl⟩⟩
  have hhead : some a = q.head := h.head.symm
  have htail : some a = q.tail := (h.tail (List.cons_ne_nil a [])).symm
  simp only [detachRelink, ← hhead, ← htail, and_self, ↓reduceIte, hcount, ne_eq,
    not_true_eq_false]
  rfl

/-- The first of several nodes. -/
theorem detachRelink_first {b : Addr} (hm : m.WF) (h : IsQueue m q (a :: b :: l₂)) :
    ∃ m' q', (detachRelink q (some a)).run m = .ok (q', m') ∧
      Unlinked m m' q q' (a :: b :: l₂) (b :: l₂) := by
  have hhead : some a = q.head := h.head.symm
  have hsplit : IsQueue m q ([] ++ a :: b :: l₂) := h
  have htail : some a ≠ q.tail := fun ht =>
    absurd (hsplit.eq_tail_iff.mp ht) (List.cons_ne_nil b l₂)
  have hlook := looked_read m a
  have hm₁ := hlook.relinked.wf hm
  have ha := h.live a (by simp)
  have hb := h.live b (by simp)
  have hnodup := h.nodup
  simp only [List.nodup_cons, List.mem_cons, not_or] at hnodup
  refine ⟨(m.log (.read a)).setPrev b none, { q with head := some b }, ?_,
    ⟨hlook.relinked.trans (relinked_setPrev _ b none), rfl, ?_, rfl, rfl, ?_, ?_⟩⟩
  · have hnext : (m.node a).next = some b := congrArg Link.next h.seg.1
    rw [detachRelink, if_neg fun hand => htail hand.2, if_pos hhead, ← hhead,
      run_bind_ok (run_load hm ha), hnext, run_bind_ok (run_store_prev hm₁ hb _)]
    rfl
  · exact h.tail (List.cons_ne_nil a _)
  · -- `q->head` moves on to `b`, and only the `prev` of `b` is written
    refine h.seg.2.setFirst (fun x hx => ?_) ?_
    · have hxb : x ≠ b := fun hxb => hnodup.2.1 (hxb ▸ hx)
      rw [link_setPrev, Function.update_of_ne hxb, hlook.link]
    · rw [link_setPrev, Function.update_self, hlook.link]
  · intro x hx
    simp only [List.mem_cons, not_or] at hx
    rw [link_setPrev, Function.update_of_ne hx.2.1, hlook.link]

/-- The last of several nodes. -/
theorem detachRelink_last {c : Addr} (hm : m.WF) (h : IsQueue m q (l₁ ++ [c] ++ [a])) :
    ∃ m' q', (detachRelink q (some a)).run m = .ok (q', m') ∧
      Unlinked m m' q q' (l₁ ++ [c] ++ [a]) (l₁ ++ [c]) := by
  obtain ⟨hseg, hlink, -⟩ := h.split
  have hhead : some a ≠ q.head := fun hh => absurd (h.eq_head_iff.mp hh) (by simp)
  have htail : some a = q.tail := h.eq_tail_iff.mpr rfl
  have hlook := looked_read m a
  have hm₁ := hlook.relinked.wf hm
  have ha := h.live a (by simp)
  have hc := h.live c (by simp)
  refine ⟨(m.log (.read a)).setNext c none, { q with tail := some c }, ?_,
    ⟨hlook.relinked.trans (relinked_setNext _ c none), ?_, ?_, rfl, rfl, ?_, ?_⟩⟩
  · have hprev : (m.node a).prev = some c := (congrArg Link.prev hlink).trans (by simp)
    rw [detachRelink, if_neg fun hand => hhead hand.1, if_neg hhead, if_pos htail, ← htail,
      run_bind_ok (run_load hm ha), hprev, run_bind_ok (run_store_next hm₁ hc _)]
    rfl
  · rw [show q.head = _ from h.head]
    simp
  · simp
  · -- `q->tail` moves back to `c`, and only the `next` of `c` is written
    refine hseg.setLast (fun x hx => ?_) ?_
    · have hxc : x ≠ c := by
        rintro rfl
        have hnodup := (List.nodup_append.mp (List.nodup_append.mp h.nodup).1).2.2
        exact hnodup x hx x (by simp) rfl
      rw [link_setNext, Function.update_of_ne hxc, hlook.link]
    · rw [link_setNext, Function.update_self, hlook.link]
  · intro x hx
    simp only [List.mem_append, List.mem_singleton, not_or] at hx
    rw [link_setNext, Function.update_of_ne hx.1.2, hlook.link]

/-- A node with neighbours on both sides. -/
theorem detachRelink_middle {b c : Addr} (hm : m.WF) (h : IsQueue m q (l₁ ++ [c] ++ a :: b :: l₂)) :
    ∃ m' q', (detachRelink q (some a)).run m = .ok (q', m') ∧
      Unlinked m m' q q' (l₁ ++ [c] ++ a :: b :: l₂) (l₁ ++ [c] ++ b :: l₂) := by
  obtain ⟨-, hlink, -⟩ := h.split
  have hhead : some a ≠ q.head := fun hh => absurd (h.eq_head_iff.mp hh) (by simp)
  have htail : some a ≠ q.tail := fun ht => absurd (h.eq_tail_iff.mp ht) (by simp)
  have hlook := looked_read m a
  have hm₁ := hlook.relinked.wf hm
  have hm₂ := (relinked_setPrev _ b (some c)).wf hm₁
  have ha := h.live a (by simp)
  have hb := h.live b (by simp)
  have hc := h.live c (by simp)
  have hnodup := h.nodup
  simp only [List.nodup_append, List.nodup_cons, List.mem_append, List.mem_cons] at hnodup
  obtain ⟨⟨-, -, hl₁c⟩, ⟨-, hbl₂, -⟩, hcross⟩ := hnodup
  have hbc : b ≠ c := fun hbc => hcross c (by simp) b (by simp) hbc.symm
  -- the neighbours are two nodes, and no other links are written
  have hother : ∀ x, x ≠ b → x ≠ c →
      (((m.log (.read a)).setPrev b (some c)).setNext c (some b)).link x = m.link x := by
    intro x hxb hxc
    rw [link_setNext, Function.update_of_ne hxc, link_setPrev, Function.update_of_ne hxb,
      hlook.link]
  refine ⟨((m.log (.read a)).setPrev b (some c)).setNext c (some b), q, ?_,
    ⟨(hlook.relinked.trans (relinked_setPrev _ b _)).trans (relinked_setNext _ c _), ?_, ?_, rfl,
    rfl, ?_, ?_⟩⟩
  · have hnext : (m.node a).next = some b := congrArg Link.next hlink
    have hprev : (m.node a).prev = some c := (congrArg Link.prev hlink).trans (by simp)
    rw [detachRelink, if_neg fun hand => hhead hand.1, if_neg hhead, if_neg htail,
      run_bind_ok (run_load hm ha), hnext, hprev, run_bind_ok (run_store_prev hm₁ hb _),
      run_bind_ok (run_store_next hm₂ hc _)]
    rfl
  · rw [h.head]
    simp
  · rw [h.tail (by simp)]
    simp [List.getLast?_append, List.getLast?_cons_cons]
  · -- in front of `a`, at its neighbours, and behind it
    apply h.seg.unlink
    · intro x hx
      exact hother x (fun hxb => hcross x (Or.inl hx) b (by simp) hxb) (hl₁c x hx c (by simp))
    · rw [link_setNext, Function.update_self, link_setPrev, Function.update_of_ne hbc.symm,
        hlook.link]
    · rw [link_setNext, Function.update_of_ne hbc, link_setPrev, Function.update_self, hlook.link]
    · intro x hx
      exact hother x (fun hxb => hbl₂ (hxb ▸ hx))
        (fun hxc => hcross c (by simp) x (by simp [hx]) hxc.symm)
  · intro x hx
    simp only [List.mem_append, List.mem_cons, not_or] at hx
    exact hother x hx.2.2.1 hx.1.2.1

theorem detachRelink_spec (hm : m.WF) (h : IsQueue m q (l₁ ++ a :: l₂)) :
    ∃ m' q', (detachRelink q (some a)).run m = .ok (q', m') ∧
      Unlinked m m' q q' (l₁ ++ a :: l₂) (l₁ ++ l₂) := by
  -- the code looks at both ends: is the node the head, and is it the tail?
  rcases List.eq_nil_or_concat' l₁ with rfl | ⟨l₁, c, rfl⟩
  · cases l₂ with
    | nil => exact detachRelink_only h
    | cons b l₂ => exact detachRelink_first hm h
  · cases l₂ with
    | nil => simpa using detachRelink_last hm h
    | cons b l₂ => exact detachRelink_middle hm h

end Relink

/-! ### The whole function -/

/-- The links after both links of `a` are cleared, in the order of `bt_qnode_detach`. -/
theorem link_clear' (m : Mem) (a : Addr) :
    ((m.setNext a none).setPrev a none).link = Function.update m.link a ⟨none, none⟩ := by
  rw [link_setPrev, link_setNext]
  simp

/-- The checks of the validating build pass for a member, and change nothing. -/
theorem run_detachValidate (b : Build) (fuel : ℕ) {l₁ l₂ : List Addr} {a : Addr} (hm : m.WF)
    (h : IsQueue m q (l₁ ++ a :: l₂)) (hfuel : (l₁ ++ a :: l₂).length < fuel) :
    ∃ m', (detachValidate b fuel q (some a)).run m = .ok ((), m') ∧ m.Looked m' := by
  cases b with
  | ndebug => exact ⟨m, rfl, .refl m⟩
  | debug =>
    have hne : l₁ ++ a :: l₂ ≠ [] := by simp
    have hcount : q.count ≠ 0 := fun h0 => hne (h.count_eq_zero_iff.mp h0)
    -- a queue with a member has its tail where it belongs
    have htight : IsQueue.Tight q (l₁ ++ a :: l₂) := fun hnil => absurd hnil hne
    have hmem : a ∈ l₁ ++ a :: l₂ := by simp
    obtain ⟨m', hrun, hlook⟩ := detachSearch_spec a hm h.walk_next (h.walk_prev htight) h.live
      (fun x hx => h.live x (List.mem_reverse.mp hx)) hfuel
      (by rw [List.length_reverse]; exact hfuel)
    refine ⟨m', ?_, hlook⟩
    rw [decide_eq_true (Or.inl hmem)] at hrun
    rw [detachValidate, if_pos rfl, if_neg hcount, run_bind_ok hrun]
    rfl

/-- Detach takes a member out of any position, in either build. -/
theorem btQnodeDetach_spec (b : Build) (fuel : ℕ) {l₁ l₂ : List Addr} {a : Addr} (hm : m.WF)
    (h : IsQueue m q (l₁ ++ a :: l₂)) (hfuel : (l₁ ++ a :: l₂).length < fuel) :
    ∃ m' q', (btQnodeDetach b fuel q (some a)).run m = .ok ((some a, q'), m') ∧
      Taken m m' q q' a (l₁ ++ a :: l₂) (l₁ ++ l₂) ∧ q'.tail = (l₁ ++ l₂).getLast? := by
  obtain ⟨m₁, hvalid, hlook⟩ := run_detachValidate b fuel hm h hfuel
  have hm₁ := hlook.relinked.wf hm
  obtain ⟨m₂, q₂, hrelink, hun⟩ := detachRelink_spec hm₁ (h.of_looked hlook)
  have hm₂ := hun.relinked.wf hm₁
  have hrelinked := (hlook.relinked.trans hun.relinked)
  have hlive₂ : ∀ x, m.Live x → m₂.Live x := fun x => hrelinked.live_iff.mpr
  have ha := hlive₂ a (h.live a (by simp))
  have hclear := relinked_setNext m₂ a none
  have hrel : m.Relinked ((m₂.setNext a none).setPrev a none) :=
    (hrelinked.trans hclear).trans (relinked_setPrev _ a none)
  have hcount := h.count_sub_one (by simp)
  have hle := h.le_max
  -- the validation looks, the relinking takes `a` out, and then the links of `a` are cleared
  have hnodup := (List.nodup_middle.mp h.nodup)
  simp only [List.length_append, List.length_cons] at hcount hle
  refine ⟨(m₂.setNext a none).setPrev a none, { q₂ with count := q₂.count - 1 }, ?_,
    ⟨hrel, ?_, hun.maxEl, ?_, ?_⟩, hun.tail⟩
  · rw [btQnodeDetach, run_bind_ok hvalid, run_bind_ok hrelink,
      run_bind_ok (run_store_next hm₂ ha _),
      run_bind_ok (run_store_prev (hclear.wf hm₂) ha _)]
    rfl
  · refine ⟨hun.head, fun _ => hun.tail, ?_, ?_, ?_, ?_⟩
    · -- clearing the links of `a` is not seen by the others
      apply hun.seg.congr
      intro x hx
      have hxa : x ≠ a := fun hxa => (List.nodup_cons.mp hnodup).1 (hxa ▸ hx)
      rw [link_clear', Function.update_of_ne hxa]
    · intro x hx
      refine hrel.live_iff.mpr (h.live x ?_)
      rcases List.mem_append.mp hx with hx | hx <;> simp [hx]
    · rw [hun.count, hcount, List.length_append]
      omega
    · rw [hun.maxEl, List.length_append]
      omega
  · rw [link_clear', Function.update_self]
  · intro x hx
    have hxa : x ≠ a := by
      rintro rfl
      simp at hx
    rw [link_clear', Function.update_of_ne hxa, hun.frame x hx, hlook.link]

end Bluetea.Queue
