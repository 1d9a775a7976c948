import Mathlib.Data.List.DropRight
import Mathlib.Data.List.TakeWhile

/-!
# Trimming

A list is what leads up to its first element that does not satisfy `p`, then its core, then what
trails behind the last such element (`lead_append`).  The core is empty when all elements satisfy
`p` (`core_eq_nil_iff`); else it begins and ends with elements that do not, so trimming it once
more changes nothing.
-/

namespace Trimming

variable {α : Type*} (p : α → Bool)

/-- The elements in front of the core. -/
def lead (l : List α) : List α := l.takeWhile p

/-- The list without the elements satisfying `p` at its two ends. -/
def core (l : List α) : List α := (l.dropWhile p).rdropWhile p

/-- The elements behind the core. -/
def trail (l : List α) : List α := (l.dropWhile p).rtakeWhile p

variable {p} {l : List α}

theorem lead_append (p : α → Bool) (l : List α) : lead p l ++ (core p l ++ trail p l) = l := by
  rw [core, trail, List.rdropWhile_append_rtakeWhile]
  exact List.takeWhile_append_dropWhile

/-- What is around the list is around its three parts. -/
theorem append_append_eq (p : α → Bool) (pre l post : List α) :
    pre ++ (l ++ post) = (pre ++ lead p l) ++ (core p l ++ (trail p l ++ post)) := by
  conv_lhs => rw [← lead_append p l]
  simp only [List.append_assoc]

theorem of_mem_lead {x : α} (h : x ∈ lead p l) : p x := List.mem_takeWhile_imp h

theorem of_mem_trail {x : α} (h : x ∈ trail p l) : p x := List.mem_rtakeWhile_imp h

theorem mem_of_mem_core {x : α} (h : x ∈ core p l) : x ∈ l :=
  (List.dropWhile_suffix p).subset ((List.rdropWhile_prefix p _).subset h)

theorem length_eq (p : α → Bool) (l : List α) :
    (lead p l).length + ((core p l).length + (trail p l).length) = l.length := by
  rw [← List.length_append, ← List.length_append, lead_append]

theorem core_eq_nil_iff : core p l = [] ↔ ∀ x ∈ l, p x := by
  constructor
  · intro h x hx
    rw [← lead_append p l, h] at hx
    rcases List.mem_append.mp hx with hx | hx
    · exact of_mem_lead hx
    · exact of_mem_trail hx
  · intro h
    rw [core, List.dropWhile_eq_nil_iff.mpr h]
    exact List.rdropWhile_nil p

theorem trail_of_core_eq_nil (h : core p l = []) : trail p l = [] := by
  rw [trail, List.dropWhile_eq_nil_iff.mpr (core_eq_nil_iff.mp h)]
  rfl

theorem exists_cons_of_core_ne_nil (h : core p l ≠ []) : ∃ x t, core p l = x :: t ∧ ¬p x := by
  have hpre : core p l <+: l.dropWhile p := List.rdropWhile_prefix p _
  obtain ⟨x, t, heq⟩ := List.exists_cons_of_ne_nil h
  obtain ⟨t', ht'⟩ := hpre
  rw [heq, List.cons_append] at ht'
  have hpos : 0 < (l.dropWhile p).length := by
    rw [← ht']
    exact Nat.succ_pos _
  have hnot := List.dropWhile_get_zero_not p l hpos
  refine ⟨x, t, heq, ?_⟩
  simp only [← ht', List.get_eq_getElem, List.getElem_cons_zero] at hnot
  exact hnot

theorem exists_concat_of_core_ne_nil (h : core p l ≠ []) : ∃ t x, core p l = t ++ [x] ∧ ¬p x :=
  ⟨_, _, (List.dropLast_append_getLast h).symm, List.rdropWhile_last_not p _ h⟩

theorem lead_core (p : α → Bool) (l : List α) : lead p (core p l) = [] := by
  by_cases h : core p l = []
  · rw [h]
    rfl
  · obtain ⟨x, t, heq, hx⟩ := exists_cons_of_core_ne_nil h
    rw [heq]
    exact List.takeWhile_cons_of_neg hx

theorem head?_core {x : α} (h : (core p l).head? = some x) : ¬p x := by
  have hne : core p l ≠ [] := List.ne_nil_of_mem (List.mem_of_head? h)
  obtain ⟨y, t, heq, hy⟩ := exists_cons_of_core_ne_nil hne
  rw [heq] at h
  exact Option.some.inj h ▸ hy

theorem getLast?_core {x : α} (h : (core p l).getLast? = some x) : ¬p x := by
  have hne : core p l ≠ [] := List.ne_nil_of_mem (List.mem_of_getLast? h)
  obtain ⟨t, y, heq, hy⟩ := exists_concat_of_core_ne_nil hne
  rw [heq, List.getLast?_concat] at h
  exact Option.some.inj h ▸ hy

theorem lead_ne_nil_iff : lead p l ≠ [] ↔ ∃ x, l.head? = some x ∧ p x := by
  cases l with
  | nil => simp [lead]
  | cons x l => by_cases hx : p x <;> simp [lead, hx]

/-- Nothing trails behind a list that does not begin with an element satisfying `p` if and only if
it does not end with one. -/
theorem trail_eq_nil_iff (h : lead p l = []) :
    trail p l = [] ↔ ∀ x, l.getLast? = some x → ¬p x := by
  have hl : l.dropWhile p = l := by
    have happ := List.takeWhile_append_dropWhile (p := p) (l := l)
    rwa [← lead, h, List.nil_append] at happ
  rw [trail, hl, List.rtakeWhile_eq_nil_iff]
  constructor
  · intro hlast x hx
    have hne : l ≠ [] := List.ne_nil_of_mem (List.mem_of_getLast? hx)
    exact (List.getLast_eq_iff_getLast?_eq_some hne).mpr hx ▸ hlast hne
  · intro hlast hne
    exact hlast _ (List.getLast?_eq_some_getLast hne)

theorem core_core (p : α → Bool) (l : List α) : core p (core p l) = core p l := by
  have hdrop : (core p l).dropWhile p = core p l := by
    have happ := List.takeWhile_append_dropWhile (p := p) (l := core p l)
    rwa [← lead, lead_core, List.nil_append] at happ
  rw [core, hdrop]
  exact List.rdropWhile_idempotent p _

/-! ### Trimming in two stages

Trimming by `q` does not see whether elements satisfying `q` have been trimmed before
(`core_core_of_imp`).  There is nothing left to trim in a list exactly if neither its first nor its
last element satisfies `q` (`core_eq_self_iff`). -/

variable {q : α → Bool}

theorem core_append_left {w : List α} (hw : ∀ x ∈ w, q x) (l : List α) :
    core q (w ++ l) = core q l := by
  rw [core, List.dropWhile_append_of_pos hw, core]

theorem rdropWhile_append_of_pos {w : List α} (hw : ∀ x ∈ w, q x) (l : List α) :
    (l ++ w).rdropWhile q = l.rdropWhile q := by
  rw [List.rdropWhile, List.reverse_append, List.dropWhile_append_of_pos, List.rdropWhile]
  intro x hx
  exact hw x (List.mem_reverse.mp hx)

theorem core_append_right {w : List α} (hw : ∀ x ∈ w, q x) (l : List α) :
    core q (l ++ w) = core q l := by
  rw [core, List.dropWhile_append]
  split_ifs with hnil
  · -- all of it is trimmed
    rw [List.dropWhile_eq_nil_iff.mpr hw, core, List.isEmpty_iff.mp hnil]
  · rw [rdropWhile_append_of_pos hw, core]

theorem core_core_of_imp (h : ∀ x, p x → q x) (l : List α) : core q (core p l) = core q l := by
  conv_rhs => rw [← lead_append p l]
  rw [core_append_left fun x hx => h x (of_mem_lead hx),
    core_append_right fun x hx => h x (of_mem_trail hx)]

theorem core_eq_self_iff :
    core q l = l ↔ (∀ x, l.head? = some x → ¬q x) ∧ ∀ x, l.getLast? = some x → ¬q x := by
  constructor
  · intro h
    rw [← h]
    exact ⟨fun x => head?_core, fun x => getLast?_core⟩
  · rintro ⟨hhead, hlast⟩
    have hlead : lead q l = [] := by
      by_contra hne
      obtain ⟨x, hx, hq⟩ := lead_ne_nil_iff.mp hne
      exact hhead x hx hq
    have happ := lead_append q l
    rwa [hlead, (trail_eq_nil_iff hlead).mpr hlast, List.append_nil, List.nil_append] at happ

end Trimming
