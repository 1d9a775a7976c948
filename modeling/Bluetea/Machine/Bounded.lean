import Bluetea.Machine.Run
import Mathlib.Data.List.Basic
import Mathlib.Tactic.TypeStar

/-!
# Bounded containers

A queue, a stack and a channel that have room for so many items and no more: what they are for, apart
from how they are stored.
-/

/-! ## A bounded FIFO

What a queue is for: a list of at most `cap` items, each a value `β` under a handle `α`.  New
items go to the end, `dequeue` takes the first one, `detach` takes the one with a given handle
and leaves the others in their order.  An enqueue may fail for lack of room, or because the
allocator (`new`) had no handle to give. -/

namespace Fifo

variable {α β : Type*}

/-- The operations; `skip` is anything that does not concern the list. -/
inductive Op (α β : Type*)
  | enqueue (v : β) (new : Option α)
  | dequeue
  | detach (a : α)
  | skip

/-- Why an operation did not succeed. -/
inductive Err
  | full
  | noMemory
  | empty
  deriving DecidableEq, Repr

/-- One operation: the answer, with the item it is about, and the new list. -/
def step [DecidableEq α] (cap : ℕ) (l : List (α × β)) :
    Op α β → Except Err (Option (α × β)) × List (α × β)
  | .enqueue v new =>
    if cap ≤ l.length then (.error .full, l)
    else
      match new with
      | none => (.error .noMemory, l)
      | some a => (.ok (some (a, v)), l ++ [(a, v)])
  | .dequeue =>
    match l with
    | [] => (.error .empty, [])
    | it :: l => (.ok (some it), l)
  | .detach a => (.ok (l.find? fun it => it.1 = a), l.filter fun it => it.1 ≠ a)
  | .skip => (.ok none, l)

section

variable [DecidableEq α] {cap : ℕ} {l l₁ l₂ : List (α × β)} {a : α} {v : β}

/-- Detaching a handle that occurs once takes out its item and keeps the order of the others. -/
theorem step_detach (h : ((l₁ ++ (a, v) :: l₂).map Prod.fst).Nodup) :
    step cap (l₁ ++ (a, v) :: l₂) (.detach a) = (.ok (some (a, v)), l₁ ++ l₂) := by
  simp only [List.map_append, List.map_cons, List.nodup_append, List.nodup_cons, List.mem_map,
    List.mem_cons] at h
  obtain ⟨-, ⟨ha₂, -⟩, hcross⟩ := h
  -- the addresses are distinct, so only this item is found, and only it is filtered out
  have h₁ : ∀ it ∈ l₁, it.1 ≠ a := fun it hit =>
    hcross it.1 ⟨it, hit, rfl⟩ a (Or.inl rfl)
  have h₂ : ∀ it ∈ l₂, it.1 ≠ a := fun it hit hia => ha₂ ⟨it, hit, hia⟩
  have hfind : l₁.find? (fun it => decide (it.1 = a)) = none :=
    List.find?_eq_none.mpr fun it hit => by simpa using h₁ it hit
  have hfilter : ∀ l : List (α × β), (∀ it ∈ l, it.1 ≠ a) →
      l.filter (fun it => decide (it.1 ≠ a)) = l := fun l hl =>
    List.filter_eq_self.mpr fun it hit => by simpa using hl it hit
  simp only [step, List.find?_append, hfind, List.find?_cons, decide_true, Option.none_or,
    List.filter_append, hfilter l₁ h₁, List.filter_cons, ne_eq, not_true_eq_false, decide_false,
    Bool.false_eq_true, ↓reduceIte]
  rw [show l₂.filter (fun it => decide ¬it.1 = a) = l₂ from hfilter l₂ h₂]

end

/-! ### Two lists that differ in their handles -/

variable {α' : Type*}

/-- The same operation under other handles; detaching is about one handle and has no counterpart. -/
inductive Op.Same : Op α β → Op α' β → Prop
  | enqueue (v : β) {new : Option α} {new' : Option α'} (h : new.isSome = new'.isSome) :
    Op.Same (.enqueue v new) (.enqueue v new')
  | dequeue : Op.Same .dequeue .dequeue
  | skip : Op.Same .skip .skip

/-- The same answer under another handle. -/
def SameAnswer : Except Err (Option (α × β)) → Except Err (Option (α' × β)) → Prop
  | .ok x, .ok x' => x.map Prod.snd = x'.map Prod.snd
  | .error e, .error e' => e = e'
  | _, _ => False

section

variable [DecidableEq α] [DecidableEq α'] {l : List (α × β)} {l' : List (α' × β)}

theorem step_same (cap : ℕ) {op : Op α β} {op' : Op α' β} (hop : op.Same op')
    (hl : l.map Prod.snd = l'.map Prod.snd) :
    SameAnswer (step cap l op).1 (step cap l' op').1 ∧
      (step cap l op).2.map Prod.snd = (step cap l' op').2.map Prod.snd := by
  have hlen : l.length = l'.length := by simpa using congrArg List.length hl
  cases hop with
  | @enqueue v new new' h =>
    by_cases hfull : cap ≤ l.length
    · simp only [step, hfull, hlen ▸ hfull, ↓reduceIte]
      exact ⟨rfl, hl⟩
    · simp only [step, hfull, hlen ▸ hfull, ↓reduceIte]
      cases new with
      | none =>
        obtain rfl : new' = none := by simpa using h.symm
        exact ⟨rfl, hl⟩
      | some a =>
        obtain ⟨a', rfl⟩ := Option.isSome_iff_exists.mp h.symm
        refine ⟨rfl, ?_⟩
        rw [List.map_append, List.map_append, hl]
        rfl
  | dequeue =>
    cases l with
    | nil =>
      obtain rfl : l' = [] := by simpa using hl.symm
      exact ⟨rfl, rfl⟩
    | cons it l =>
      obtain ⟨it', rest, rfl⟩ := List.exists_cons_of_length_eq_add_one hlen.symm
      rw [List.map_cons, List.map_cons, List.cons.injEq] at hl
      exact ⟨congrArg some hl.1, hl.2⟩
  | skip => exact ⟨rfl, hl⟩

/-- Runs of the same operations give the same answers. -/
theorem answers_same (cap : ℕ) {ops : List (Op α β)} {ops' : List (Op α' β)}
    (hops : List.Forall₂ Op.Same ops ops') (hl : l.map Prod.snd = l'.map Prod.snd) :
    List.Forall₂ SameAnswer (Machine.answers (step cap) l ops).1
        (Machine.answers (step cap) l' ops').1 ∧
      (Machine.answers (step cap) l ops).2.map Prod.snd
        = (Machine.answers (step cap) l' ops').2.map Prod.snd := by
  induction hops generalizing l l' with
  | nil => exact ⟨.nil, hl⟩
  | cons hop hops ih =>
    obtain ⟨hans, hl⟩ := step_same cap hop hl
    obtain ⟨hall, hrest⟩ := ih hl
    exact ⟨.cons hans hall, hrest⟩

end

end Fifo

/-! ## A bounded LIFO

What a stack is for: a list of at most `cap` items, the latest first.  `push` puts an item in
front of the others, `pop` takes the first one; either is refused when there is no room, or no
item. -/

namespace Lifo

variable {α : Type*}

inductive Op (α : Type*)
  | push (v : α)
  | pop
  | count

inductive Ans (α : Type*)
  | item (v : α)
  | refused
  | size (n : ℕ)

/-- One operation: the answer and the new list. -/
def step (cap : ℕ) (l : List α) : Op α → Ans α × List α
  | .push v => if l.length < cap then (.item v, v :: l) else (.refused, l)
  | .pop =>
    match l with
    | [] => (.refused, [])
    | v :: l => (.item v, l)
  | .count => (.size l.length, l)

end Lifo

/-! ## Channels that drop

A channel with a bounded capacity takes what is sent to it while there is room, and drops what is
sent when it is full.  As long as nothing is taken out, what it holds is the beginning of what has
been sent (`send_take`).  A reader that comes late gets no more than that, which is the last thing
sent if there was room for all (`getLastD_take_of_room`). -/

namespace DropTail

variable {α : Type*}

/-- Sends `x` to a channel that holds `q`. -/
def send (cap : ℕ) (q : List α) (x : α) : List α := if q.length < cap then q ++ [x] else q

theorem send_take (cap : ℕ) (l : List α) (x : α) :
    send cap (l.take cap) x = (l ++ [x]).take cap := by
  by_cases h : l.length < cap
  · have hroom : (l.take cap).length < cap := by
      rw [List.length_take]
      omega
    rw [send, if_pos hroom, List.take_of_length_le (Nat.le_of_lt h), List.take_of_length_le]
    rw [List.length_append]
    exact h
  · have hfull : ¬(l.take cap).length < cap := by
      rw [List.length_take]
      omega
    rw [send, if_neg hfull, List.take_append_of_le_length (Nat.le_of_not_lt h)]

theorem getLastD_take_of_room {cap : ℕ} {l : List α} (h : l.length ≤ cap) (d : α) :
    (l.take cap).getLastD d = l.getLastD d := by
  rw [List.take_of_length_le h]

end DropTail
