import Mathlib.Data.List.Induction
import Mathlib.Data.List.Nodup

/-!
# Doubly linked segments

A link map `k : α → Link α` gives every cell its two links.  `Seg k p l n` says that the cells
of `l` are linked in order in both directions, that the first one points back to `p` and that
the last one points on to `n`; an empty segment says nothing.  A whole list is `Seg k none l none`.

`Walk f p l` is the one-directional view: following `f` from the pointer `p` visits `l` and ends
at the null pointer.  A whole list is walked from both ends (`Seg.walk_next`, `Seg.walk_prev`),
and walks are deterministic (`Walk.unique`), so a well-formed list has no repeated cell
(`Seg.nodup`).

The cells are arbitrary; nothing is said about which of them exist.
-/

namespace DoublyLinked

/-- The two links of a cell; `none` is the null pointer. -/
structure Link (α : Type*) where
  next : Option α
  prev : Option α
  deriving DecidableEq, Repr

variable {α : Type*}

/-! ### Walks -/

/-- Following `f` from the pointer `p` visits exactly `l`, then reaches the null pointer. -/
inductive Walk (f : α → Option α) : Option α → List α → Prop
  | nil : Walk f none []
  | cons {a : α} {l : List α} : Walk f (f a) l → Walk f (some a) (a :: l)

namespace Walk

variable {f : α → Option α}

theorem head?_eq {p : Option α} {l : List α} (h : Walk f p l) : l.head? = p := by
  cases h <;> rfl

@[simp] theorem none_iff {l : List α} : Walk f none l ↔ l = [] := by
  constructor
  · intro h; cases h; rfl
  · rintro rfl; exact nil

@[simp] theorem some_cons_iff {p : Option α} {a : α} {l : List α} :
    Walk f p (a :: l) ↔ p = some a ∧ Walk f (f a) l := by
  constructor
  · intro h; cases h with | cons h => exact ⟨rfl, h⟩
  · rintro ⟨rfl, h⟩; exact cons h

@[simp] theorem nil_iff {p : Option α} : Walk f p [] ↔ p = none := by
  constructor
  · intro h; cases h; rfl
  · rintro rfl; exact nil

/-- A walk is determined by its starting pointer. -/
theorem unique {p : Option α} {l l' : List α} (h : Walk f p l) (h' : Walk f p l') : l = l' := by
  induction h generalizing l' with
  | nil => exact (none_iff.mp h').symm
  | cons _ ih => cases h' with | cons h' => rw [ih h']

/-- A suffix of a walk is a walk. -/
theorem suffix {p : Option α} {l₁ l₂ : List α} {a : α} (h : Walk f p (l₁ ++ a :: l₂)) :
    Walk f (some a) (a :: l₂) := by
  induction l₁ generalizing p with
  | nil =>
    rw [(some_cons_iff.mp h).1] at h
    exact h
  | cons b l₁ ih => exact ih (some_cons_iff.mp h).2

/-- A walk that ends cannot meet a cell twice: the rest of the walk after the two meetings
would be one list with two lengths. -/
theorem nodup {p : Option α} {l : List α} (h : Walk f p l) : l.Nodup := by
  induction h with
  | nil => exact List.nodup_nil
  | @cons a l h ih =>
    refine List.nodup_cons.mpr ⟨?_, ih⟩
    intro ha
    obtain ⟨l₁, l₂, rfl⟩ := List.append_of_mem ha
    -- `a :: l` and the part from the second meeting on are both the walk from `a`
    have hlen := congrArg List.length (h.suffix.unique (cons h))
    simp at hlen
    omega

/-- A step from a cell of the walk stays in the walk. -/
theorem mem_of_mem {p : Option α} {l : List α} {a b : α} (h : Walk f p l) (ha : a ∈ l)
    (hab : f a = some b) : b ∈ l := by
  obtain ⟨l₁, l₂, rfl⟩ := List.append_of_mem ha
  have hrest := (some_cons_iff.mp h.suffix).2
  rw [hab] at hrest
  have hhead := hrest.head?_eq
  exact List.mem_append_right _ (List.mem_cons_of_mem _ (List.mem_of_head? hhead))

end Walk

/-! ### Segments -/

/-- The cells of the list are linked in order in both directions, from `p` on to `n`. -/
def Seg (k : α → Link α) : Option α → List α → Option α → Prop
  | _, [], _ => True
  | p, a :: l, n => k a = ⟨l.head?.or n, p⟩ ∧ Seg k (some a) l n

variable {k k' : α → Link α} {p p' n n' : Option α} {l l₁ l₂ : List α} {a : α}

@[simp] theorem seg_nil : Seg k p [] n := trivial

@[simp] theorem seg_cons :
    Seg k p (a :: l) n ↔ k a = ⟨l.head?.or n, p⟩ ∧ Seg k (some a) l n := Iff.rfl

/-- The cell in front of what follows `a :: l`. -/
theorem getLast?_cons_or (a : α) (l : List α) (p : Option α) :
    (a :: l).getLast?.or p = l.getLast?.or (some a) := by
  cases l with
  | nil => rfl
  | cons b l => simp [List.getLast?_cons]

/-- A segment splits at any place; the two halves point at each other. -/
theorem seg_append :
    Seg k p (l₁ ++ l₂) n ↔ Seg k p l₁ (l₂.head?.or n) ∧ Seg k (l₁.getLast?.or p) l₂ n := by
  induction l₁ generalizing p with
  | nil => simp
  | cons a l₁ ih =>
    rw [List.cons_append, seg_cons, seg_cons, ih, getLast?_cons_or, List.head?_append,
      Option.or_assoc, and_assoc]

/-- Cells that each point to their neighbours in the list form a segment. -/
theorem Seg.of_neighbours
    (h : ∀ l₁ a l₂, l = l₁ ++ a :: l₂ → k a = ⟨l₂.head?.or n, l₁.getLast?.or p⟩) :
    Seg k p l n := by
  induction l generalizing p with
  | nil => trivial
  | cons a l ih =>
    refine ⟨h [] a l rfl, ih fun l₁ x l₂ hl => ?_⟩
    rw [h (a :: l₁) x l₂ (by rw [hl]; rfl), getLast?_cons_or]

/-- Two walks over the same cells, one back from where the other one leads, are a whole list. -/
theorem Seg.of_walks (h : Walk (fun a => (k a).next) p l)
    (h' : Walk (fun a => (k a).prev) p' l.reverse) : Seg k none l none := by
  apply Seg.of_neighbours
  intro l₁ a l₂ hl
  have hnext : (k a).next = l₂.head? := by
    rw [hl] at h
    exact (Walk.some_cons_iff.mp h.suffix).2.head?_eq.symm
  have hprev : (k a).prev = l₁.getLast? := by
    rw [hl, List.reverse_append, List.reverse_cons, List.append_assoc] at h'
    have hsuffix : Walk (fun a => (k a).prev) (some a) (a :: l₁.reverse) := h'.suffix
    rw [← List.head?_reverse]
    exact (Walk.some_cons_iff.mp hsuffix).2.head?_eq.symm
  rw [Option.or_none, Option.or_none, ← hnext, ← hprev]

/-- A segment determines the links of its cells. -/
theorem Seg.link_eq (h : Seg k p l n) (h' : Seg k' p l n) : ∀ a ∈ l, k a = k' a := by
  induction l generalizing p with
  | nil =>
    intro a ha
    cases ha
  | cons b l ih =>
    intro a ha
    rcases List.mem_cons.mp ha with rfl | ha
    · rw [h.1, h'.1]
    · exact ih h.2 h'.2 a ha

/-- A segment reads the links of its own cells only. -/
theorem Seg.congr (hk : ∀ a ∈ l, k' a = k a) (h : Seg k p l n) : Seg k' p l n := by
  induction l generalizing p with
  | nil => trivial
  | cons a l ih =>
    obtain ⟨ha, h⟩ := h
    exact ⟨(hk a (List.mem_cons_self ..)).trans ha,
      ih (fun b hb => hk b (List.mem_cons_of_mem _ hb)) h⟩

/-- Redirecting the `next` link of the last cell moves the end of the segment. -/
theorem Seg.setLast (h : Seg k p (l ++ [a]) n) (hl : ∀ b ∈ l, k' b = k b)
    (ha : k' a = { k a with next := n' }) : Seg k' p (l ++ [a]) n' := by
  rw [seg_append] at h ⊢
  obtain ⟨h, hlast, -⟩ := h
  exact ⟨h.congr hl, by rw [ha, hlast]; rfl, trivial⟩

/-- A cell is appended: the last cell leads on to it, and it leads back. -/
theorem Seg.concat {t : α} (h : Seg k p (l ++ [t]) n) (hl : ∀ b ∈ l, k' b = k b)
    (ht : k' t = { k t with next := some a }) (ha : k' a = ⟨none, some t⟩) :
    Seg k' p (l ++ [t] ++ [a]) none := by
  rw [seg_append]
  refine ⟨h.setLast hl ht, ?_, trivial⟩
  rw [ha, List.getLast?_concat]
  rfl

/-- Redirecting the `prev` link of the first cell moves the start of the segment. -/
theorem Seg.setFirst (h : Seg k p (a :: l) n) (hl : ∀ b ∈ l, k' b = k b)
    (ha : k' a = { k a with prev := p' }) : Seg k' p' (a :: l) n := by
  obtain ⟨hfirst, h⟩ := h
  exact ⟨by rw [ha, hfirst], h.congr hl⟩

/-- A cell is taken out: the cells in front of it and behind it are linked to each other. -/
theorem Seg.unlink {b c : α} (h : Seg k p (l₁ ++ [c] ++ a :: b :: l₂) n)
    (h₁ : ∀ x ∈ l₁, k' x = k x) (hc : k' c = { k c with next := some b })
    (hb : k' b = { k b with prev := some c }) (h₂ : ∀ x ∈ l₂, k' x = k x) :
    Seg k' p (l₁ ++ [c] ++ b :: l₂) n := by
  rw [seg_append] at h ⊢
  obtain ⟨hseg₁, -, hseg₂⟩ := h
  constructor
  · exact hseg₁.setLast h₁ hc
  · rw [List.getLast?_concat, Option.some_or]
    exact hseg₂.setFirst h₂ hb

theorem Seg.walk_next (h : Seg k p l none) : Walk (fun a => (k a).next) l.head? l := by
  induction l generalizing p with
  | nil => exact Walk.nil
  | cons a l ih =>
    refine Walk.cons ?_
    rw [h.1]
    simpa using ih h.2

theorem Seg.walk_prev (h : Seg k none l n) :
    Walk (fun a => (k a).prev) l.getLast? l.reverse := by
  induction l using List.reverseRecOn generalizing n with
  | nil => exact Walk.nil
  | append_singleton l a ih =>
    obtain ⟨h, hlast⟩ := seg_append.mp h
    rw [List.reverse_concat, List.getLast?_concat]
    refine Walk.cons ?_
    rw [hlast.1, Option.or_none]
    exact ih h

theorem Seg.nodup (h : Seg k p l none) : l.Nodup := h.walk_next.nodup

end DoublyLinked
