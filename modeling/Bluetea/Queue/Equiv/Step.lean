import Bluetea.Queue.Equiv.Destroy
import Bluetea.Queue.Equiv.Detach
import Bluetea.Queue.Equiv.Enqueue
import Bluetea.Queue.Program

/-!
# One call of a program

`Good m₀ w l` is the invariant of a program that uses one queue and began in the memory `m₀`: the
memory is well formed, the queue holds `l`, the held nodes have both links cleared, and the ledger
balances: `malloc` handed out the nodes linked, those held and those freed, no node is in two places,
and whatever else is live was live before.

Each call of a correct caller keeps it; there is one lemma for each outcome of each call.
-/

namespace Bluetea.Queue

open DoublyLinked Ledger Mem

/-- The invariant of a program: `l` are the nodes linked in its queue. -/
structure Good (m₀ : Mem) (w : World) (l : List Addr) : Prop where
  wf : w.mem.WF
  queue : IsQueue w.mem w.q l
  held_link : ∀ a ∈ w.held, w.mem.link a = ⟨none, none⟩
  ledger : Balanced m₀.Live w.mem.Live w.mem.allocated w.mem.freed (l ++ w.held)

variable {m₀ : Mem} {w : World} {l : List Addr} (b : Build) (fuel : ℕ)

theorem Good.init {m : Mem} (hm : m.WF) (q : BtQueue) (maxEl : UInt32) :
    Good m (World.init m q maxEl) [] :=
  { wf := hm.congr rfl
    queue := ⟨rfl, fun h => absurd rfl h, trivial, by simp, rfl, Nat.zero_le _⟩
    held_link := by simp [World.init]
    ledger := .init m.Live }

theorem Good.nodup (h : Good m₀ w l) : (l ++ w.held).Nodup := h.ledger.nodup

theorem Good.held_live (h : Good m₀ w l) {a : Addr} (ha : a ∈ w.held) : w.mem.Live a :=
  h.ledger.live_of_owned (List.mem_append_right l ha)

/-- A member, in the caller's sense, has a place in the list. -/
theorem Good.member_iff (h : Good m₀ w l) {n : Addr} : w.Member n ↔ n ∈ l := by
  have hwalk := h.queue.walk_next
  constructor
  · rintro ⟨l', hwalk', hn⟩
    -- a link leads one way only, so the caller's walk is the list
    rwa [hwalk.unique hwalk']
  · intro hn
    exact ⟨l, hwalk, hn⟩

theorem Good.setErrno (h : Good m₀ w l) (e : Int) :
    Good m₀ { w with mem := w.mem.setErrno e } l :=
  { wf := h.wf.congr rfl
    queue := h.queue.congr (fun _ _ => rfl) h.queue.live
    held_link := h.held_link
    ledger := h.ledger }

theorem observe_of_holds {m : Mem} {a : Addr} {bytes : List UInt8} (h : m.Holds a bytes) :
    observe (some a) m = ⟨some a, m.errno, some ((m.node a).len, bytes)⟩ := by
  simp only [observe, Option.map_some, btQnodeLen, btQnodeData, h.len, h.data]

/-! ### Enqueue -/

section Enqueue

variable {data : CObj} {len : UInt64} (h : Good m₀ w l)

include h

theorem exec_enqueue_full (ans : Option UInt64) (hfull : w.q.maxEl.toNat ≤ l.length) :
    exec b fuel w (.enqueue ans data len)
      = .ok (⟨none, EAGAIN, none⟩, { w with mem := w.mem.setErrno EAGAIN }) := by
  rw [exec, outcome_ok (run_btQueueEnqueue_full b ans h.queue hfull)]
  rfl

theorem exec_enqueue_noMemory (hlt : l.length < w.q.maxEl.toNat) :
    exec b fuel w (.enqueue none data len)
      = .ok (⟨none, ENOMEM, none⟩, { w with mem := w.mem.setErrno ENOMEM }) := by
  rw [exec, outcome_ok (run_btQueueEnqueue_noMemory b h.queue hlt)]
  rfl

theorem exec_enqueue_ok {orig : UInt64} (hlt : l.length < w.q.maxEl.toNat)
    (hpre : Owed w (.enqueue (some orig) data len))
    (htight : b = .debug → IsQueue.Tight w.q l) :
    ∃ w', exec b fuel w (.enqueue (some orig) data len)
        = .ok (observe (some (userOf orig)) w'.mem, w') ∧
      Good m₀ w' (l ++ [userOf orig]) ∧ w'.q.tail = some (userOf orig) ∧
      w'.q.maxEl = w.q.maxEl ∧ w'.mem.Holds (userOf orig) (data.bytes.take len.toNat) ∧
      ∀ x bs, x ∈ l ++ w.held → w.mem.Holds x bs → w'.mem.Holds x bs := by
  obtain ⟨hdata, hans⟩ := hpre
  have hlen : len.toNat + 129 < 2 ^ 64 := by
    have := data.length_lt
    omega
  obtain ⟨m', q', hrun, he⟩ :=
    btQueueEnqueue_spec h.wf h.queue hlt hlen (hans orig rfl) hdata b htight
  -- `malloc` returned memory in which no node of the program lies
  have hne : ∀ x ∈ l ++ w.held, x ≠ userOf orig := by
    rintro x hx rfl
    rcases List.mem_append.mp hx with hx | hx
    · exact he.fresh (h.queue.live _ hx)
    · exact he.fresh (h.held_live hx)
  have hdisj := (List.nodup_append.mp h.nodup).2.2
  refine ⟨⟨m', q', w.held⟩, ?_, ⟨he.wf, he.queue, ?_, ?_⟩, he.tail, he.maxEl, he.holds,
    fun x bs hx => he.others x bs (hne x hx)⟩
  · rw [exec, outcome_ok hrun]
    rfl
  · intro x hx
    rw [he.frame x (fun hxl => hdisj x hxl x hx rfl) (hne x (List.mem_append_right _ hx))]
    exact h.held_link x hx
  · -- the new node is booked as linked
    show Balanced m₀.Live m'.Live m'.allocated m'.freed (l ++ [userOf orig] ++ w.held)
    rw [he.allocated, he.freed, List.append_assoc, List.singleton_append]
    exact (h.ledger.alloc he.fresh he.live_iff).perm_owned List.perm_middle.symm

end Enqueue

/-! ### Dequeue and detach -/

/-- Taking a node out keeps the invariant: the node moves to the held ones. -/
theorem Good.taken {m' : Mem} {q' : BtQueue} {a : Addr} {l₁ l₂ : List Addr}
    (h : Good m₀ w (l₁ ++ a :: l₂)) (ht : Taken w.mem m' w.q q' a (l₁ ++ a :: l₂) (l₁ ++ l₂)) :
    Good m₀ ⟨m', q', a :: w.held⟩ (l₁ ++ l₂) := by
  -- the node moves from one list of the books to the other
  have hmiddle : (l₁ ++ a :: l₂ ++ w.held).Perm (l₁ ++ l₂ ++ a :: w.held) := by
    rw [List.append_assoc, List.cons_append]
    refine List.perm_middle.trans ?_
    rw [← List.append_assoc]
    exact List.perm_middle.symm
  have hdisj := (List.nodup_append.mp h.nodup).2.2
  refine ⟨ht.relinked.wf h.wf, ht.queue, ?_, ?_⟩
  · intro x hx
    rcases List.mem_cons.mp hx with rfl | hx
    · exact ht.link
    · rw [ht.frame x fun hxl => hdisj x hxl x hx rfl]
      exact h.held_link x hx
  · show Balanced m₀.Live m'.Live m'.allocated m'.freed (l₁ ++ l₂ ++ a :: w.held)
    rw [ht.relinked.live_eq, ht.relinked.allocated, ht.relinked.freed]
    exact h.ledger.perm_owned hmiddle

theorem exec_dequeue_empty (h : Good m₀ w []) :
    exec b fuel w .dequeue
      = .ok (⟨none, EAGAIN, none⟩, { w with mem := w.mem.setErrno EAGAIN }) := by
  rw [exec, outcome_ok (run_btQueueDequeue_empty b h.queue)]
  rfl

theorem exec_dequeue_ok {a : Addr} (h : Good m₀ w (a :: l)) :
    ∃ w', exec b fuel w .dequeue = .ok (observe (some a) w'.mem, w') ∧ Good m₀ w' l ∧
      w'.held = a :: w.held ∧ w'.q.tail = w.q.tail ∧ w'.q.maxEl = w.q.maxEl ∧
      ∀ x bs, w.mem.Holds x bs → w'.mem.Holds x bs := by
  obtain ⟨m', q', hrun, ht, htail⟩ := btQueueDequeue_spec b h.wf h.queue
  have hgood : Good m₀ ⟨m', q', a :: w.held⟩ ([] ++ l) := h.taken ht
  refine ⟨⟨m', q', a :: w.held⟩, ?_, hgood, rfl, htail, ht.maxEl,
    fun x bs => ht.relinked.holds⟩
  rw [exec, outcome_ok hrun]
  rfl

theorem exec_detach_ok {fuel : ℕ} {a : Addr} {l₁ l₂ : List Addr} (h : Good m₀ w (l₁ ++ a :: l₂))
    (hfuel : w.q.maxEl.toNat < fuel) :
    ∃ w', exec b fuel w (.detach a) = .ok (observe (some a) w'.mem, w') ∧ Good m₀ w' (l₁ ++ l₂) ∧
      w'.held = a :: w.held ∧ w'.q.tail = (l₁ ++ l₂).getLast? ∧ w'.q.maxEl = w.q.maxEl ∧
      ∀ x bs, w.mem.Holds x bs → w'.mem.Holds x bs := by
  obtain ⟨m', q', hrun, ht, htail⟩ :=
    btQnodeDetach_spec b fuel h.wf h.queue (lt_of_le_of_lt h.queue.le_max hfuel)
  refine ⟨⟨m', q', a :: w.held⟩, ?_, h.taken ht, rfl, htail, ht.maxEl,
    fun x bs => ht.relinked.holds⟩
  rw [exec, outcome_ok hrun]
  rfl

/-! ### Delete -/

/-- Deleting a held node frees it, and nothing else changes. -/
theorem exec_delete_ok {a : Addr} (h : Good m₀ w l) (ha : a ∈ w.held) :
    ∃ w', exec b fuel w (.delete a) = .ok (observe none w'.mem, w') ∧ Good m₀ w' l ∧
      w'.held = w.held.erase a ∧ w'.q = w.q ∧
      ∀ x bs, w.mem.Holds x bs → w'.mem.Holds x bs := by
  have hlink := h.held_link a ha
  have hrun := run_btQnodeDelete h.wf (h.held_live ha) (congrArg Link.next hlink)
    (congrArg Link.prev hlink)
  have hdisj := (List.nodup_append.mp h.nodup).2.2
  have hal : a ∉ l := fun hl => hdisj a hl a ha rfl
  refine ⟨⟨w.mem.deleted a, w.q, w.held.erase a⟩, ?_, ⟨?_, ?_, ?_, ?_⟩, rfl, rfl,
    fun x bs hbs => ⟨hbs.len, hbs.data⟩⟩
  · rw [exec, outcome_ok hrun]
    rfl
  · exact h.wf.deleted a
  · refine h.queue.congr (fun _ _ => rfl) fun x hx => ?_
    -- the freed node is not one of the queue
    refine (live_deleted w.mem).mpr ⟨?_, h.queue.live x hx⟩
    rintro rfl
    exact hal hx
  · exact fun x hx => h.held_link x (List.mem_of_mem_erase hx)
  · show Balanced m₀.Live (w.mem.deleted a).Live (w.mem.deleted a).allocated
      (w.mem.deleted a).freed (l ++ w.held.erase a)
    rw [allocated_deleted, freed_deleted, ← List.erase_append_right _ hal]
    exact h.ledger.free_one (List.mem_append_right l ha) fun x => live_deleted w.mem

end Bluetea.Queue
