import Mathlib.Data.List.Basic
import Mathlib.Tactic.TypeStar

/-!
# Buffers

A buffer is a list, a pointer into it is an index.  Accesses beyond the end are faults.

A program that fills a buffer from the left leaves it in the form `overwrite w o`: what it has
written, then the rest of what was there before.
-/

namespace Buffer

variable {α : Type*} {w o : List α}

/-- An access beyond the end of a buffer. -/
inductive Fault
  | read (i : ℕ)
  | write (i : ℕ)
  deriving DecidableEq, Repr

def load (b : List α) (i : ℕ) : Except Fault α :=
  match b[i]? with
  | some x => .ok x
  | none => .error (.read i)

def store (b : List α) (i : ℕ) (x : α) : Except Fault (List α) :=
  if i < b.length then .ok (b.set i x) else .error (.write i)

/-- `n` elements from index `src` on are copied to index `dst`.  All are read before any is
written, so the two ranges may overlap. -/
def memmove (b : List α) (dst src n : ℕ) : Except Fault (List α) :=
  if b.length < src + n then .error (.read b.length)
  else if b.length < dst + n then .error (.write b.length)
  else .ok (b.take dst ++ ((b.drop src).take n ++ b.drop (dst + n)))

/-- The first `n` elements of `src` are copied to the start of `b`. -/
def memmoveFrom (b src : List α) (n : ℕ) : Except Fault (List α) :=
  if src.length < n then .error (.read src.length)
  else if b.length < n then .error (.write b.length)
  else .ok (src.take n ++ b.drop n)

/-- The first `n` elements of `src` are copied to index `dst` of `b`, another buffer. -/
def memcpy (b : List α) (dst : ℕ) (src : List α) (n : ℕ) : Except Fault (List α) :=
  if src.length < n then .error (.read src.length)
  else if b.length < dst + n then .error (.write b.length)
  else .ok (b.take dst ++ (src.take n ++ b.drop (dst + n)))

/-- On `b`, the program `f` returns `r` and leaves `b'`, without access to any index from `n` on:
what is there does not change, and the same happens where there is nothing. -/
structure Within {ε β : Type*} (n : ℕ) (f : List α → Except ε (β × List α)) (b : List α) (r : β)
    (b' : List α) : Prop where
  run : f b = .ok (r, b')
  run_take : f (b.take n) = .ok (r, b'.take n)
  drop : b'.drop n = b.drop n

/-- The buffer `o` with `w` in place of its first elements. -/
def overwrite (w o : List α) : List α := w ++ o.drop w.length

/-- On `o`, `t` is written behind `w`, from left to right, up to the first element that has no
place. -/
def put (o w t : List α) : Except Fault (List α) :=
  if w.length + t.length ≤ o.length then .ok (overwrite (w ++ t) o) else .error (.write o.length)

@[simp] theorem overwrite_nil (o : List α) : overwrite [] o = o := rfl

theorem load_of_lt {b : List α} {i : ℕ} (h : i < b.length) : load b i = .ok b[i] := by
  rw [load, List.getElem?_eq_getElem h]

theorem store_of_lt {b : List α} {i : ℕ} (h : i < b.length) (x : α) :
    store b i x = .ok (b.set i x) := if_pos h

theorem load_append (pre post : List α) (x : α) : load (pre ++ x :: post) pre.length = .ok x := by
  rw [load, List.getElem?_append_right (Nat.le_refl _), Nat.sub_self]
  rfl

/-- Reading on behind `pre`. -/
theorem load_next {b pre l post : List α} {x : α} {i : ℕ} (hb : b = pre ++ (x :: l ++ post))
    (hi : i = pre.length) :
    load b i = .ok x ∧ b = (pre ++ [x]) ++ (l ++ post) ∧ i + 1 = (pre ++ [x]).length := by
  refine ⟨?_, ?_, ?_⟩
  · rw [hb, hi]
    exact load_append ..
  · rw [hb, List.append_assoc]
    rfl
  · rw [hi, List.length_append]
    rfl

/-- Copying the first elements of another buffer. -/
theorem memmoveFrom_overwrite {src : List α} (hsrc : w <+: src) (h : w.length ≤ o.length) :
    memmoveFrom o src w.length = .ok (overwrite w o) := by
  have hle := hsrc.length_le
  rw [memmoveFrom, if_neg (by omega), if_neg (by omega), ← List.prefix_iff_eq_take.mp hsrc]
  rfl

/-- Copying more than there is, or than there is room for. -/
theorem memmoveFrom_error {b src : List α} {n : ℕ} (h : b.length < n) :
    ∃ f, memmoveFrom b src n = .error f := by
  unfold memmoveFrom
  by_cases hsrc : src.length < n
  · exact ⟨_, if_pos hsrc⟩
  · rw [if_neg hsrc, if_pos h]
    exact ⟨_, rfl⟩

/-- What is moved is behind the place it goes to: `pre`, `gap`, then the `n` elements `w`. -/
theorem memmove_down (pre gap w post : List α) :
    memmove (pre ++ (gap ++ (w ++ post))) pre.length (pre.length + gap.length) w.length
      = .ok (pre ++ overwrite w (gap ++ (w ++ post))) := by
  have hlen : (pre ++ (gap ++ (w ++ post))).length
      = pre.length + (gap.length + (w.length + post.length)) := by
    simp only [List.length_append]
  have hsrc : (pre ++ (gap ++ (w ++ post))).drop (pre.length + gap.length) = w ++ post := by
    rw [← List.drop_drop, List.drop_left, List.drop_left]
  rw [memmove, hlen, if_neg (by omega), if_neg (by omega), hsrc, List.take_left, List.take_left,
    ← List.drop_drop, List.drop_left]
  rfl

theorem length_overwrite (h : w.length ≤ o.length) : (overwrite w o).length = o.length := by
  rw [overwrite, List.length_append, List.length_drop]
  omega

/-- Writing behind what is written. -/
theorem store_overwrite (h : w.length < o.length) (x : α) :
    store (overwrite w o) w.length x = .ok (overwrite (w ++ [x]) o) := by
  have hlen : (overwrite w o).length = o.length := length_overwrite (Nat.le_of_lt h)
  rw [store, hlen, if_pos h]
  congr 1
  unfold overwrite
  rw [List.set_append_right _ _ (Nat.le_refl _), Nat.sub_self, List.drop_eq_getElem_cons h,
    List.set_cons_zero, List.append_assoc, List.length_append]
  rfl

theorem getElem?_overwrite_of_lt {i : ℕ} (h : i < w.length) : (overwrite w o)[i]? = w[i]? :=
  List.getElem?_append_left h

theorem getElem?_overwrite_of_le {i : ℕ} (h : w.length ≤ i) : (overwrite w o)[i]? = o[i]? := by
  rw [overwrite, List.getElem?_append_right h, List.getElem?_drop]
  congr 1
  omega

theorem take_overwrite {n : ℕ} (h : w.length ≤ n) :
    (overwrite w o).take n = overwrite w (o.take n) := by
  rw [overwrite, List.take_append, List.take_of_length_le h, overwrite, List.drop_take]

theorem drop_overwrite {n : ℕ} (h : w.length ≤ n) : (overwrite w o).drop n = o.drop n := by
  rw [overwrite, List.drop_append, List.drop_eq_nil_of_le h, List.nil_append, List.drop_drop,
    Nat.add_sub_cancel' h]

/-! ### Writing step by step -/

section Put

universe u

variable {α β γ : Type u} {w o s t : List α}

theorem put_of_le (h : w.length + t.length ≤ o.length) : put o w t = .ok (overwrite (w ++ t) o) :=
  if_pos h

theorem put_of_lt (h : o.length < w.length + t.length) : put o w t = .error (.write o.length) :=
  if_neg (Nat.not_le_of_lt h)

theorem put_nil (h : w.length ≤ o.length) : put o w [] = .ok (overwrite w o) := by
  have h0 : w.length + ([] : List α).length ≤ o.length := h
  rw [put_of_le h0, List.append_nil]

/-- A program that writes `t` runs if and only if there is room for it. -/
theorem map_put_ok_iff (f : List α → β) :
    (∃ r, (put o w t).map f = .ok r) ↔ w.length + t.length ≤ o.length := by
  constructor
  · rintro ⟨r, hr⟩
    by_contra hlt
    rw [put_of_lt (Nat.lt_of_not_le hlt)] at hr
    cases hr
  · intro h
    rw [put_of_le h]
    exact ⟨_, rfl⟩

/-- What comes after `s` is written goes on with `t`. -/
theorem put_bind {f : List α → β} {g : List α → γ} {k : β → Except Fault γ}
    (hk : w.length + s.length ≤ o.length →
      k (f (overwrite (w ++ s) o)) = (put o (w ++ s) t).map g) :
    ((put o w s).map f >>= k) = (put o w (s ++ t)).map g := by
  by_cases h : w.length + s.length ≤ o.length
  · rw [put_of_le h]
    show k (f (overwrite (w ++ s) o)) = _
    rw [hk h, put, put, List.length_append, List.length_append, List.append_assoc, Nat.add_assoc]
  · have hlt := Nat.lt_of_not_le h
    rw [put_of_lt hlt, put_of_lt (by rw [List.length_append]; omega)]
    rfl

theorem store_eq_put (h : w.length ≤ o.length) (x : α) :
    store (overwrite w o) w.length x = put o w [x] := by
  rcases Nat.lt_or_eq_of_le h with hlt | heq
  · have hroom : w.length + [x].length ≤ o.length := hlt
    rw [store_overwrite hlt, put_of_le hroom]
  · have hfull : o.length < w.length + [x].length := Nat.lt_succ_of_le (Nat.le_of_eq heq.symm)
    rw [put_of_lt hfull, store, length_overwrite h, heq, if_neg (Nat.lt_irrefl _)]

/-- The program `k` behind a store goes on with `t`. -/
theorem store_bind {g : List α → γ} {k : List α → Except Fault γ} {i : ℕ} {x : α}
    (hi : i = w.length) (h : w.length ≤ o.length)
    (hk : i + 1 = (w ++ [x]).length → (w ++ [x]).length ≤ o.length →
      k (overwrite (w ++ [x]) o) = (put o (w ++ [x]) t).map g) :
    (store (overwrite w o) i x >>= k) = (put o w (x :: t)).map g := by
  have hlen : (w ++ [x]).length = w.length + 1 := List.length_append
  have hput : ((put o w [x]).map id >>= k) = (put o w ([x] ++ t)).map g :=
    put_bind fun hroom => hk (by rw [hi, hlen]) (by rw [hlen]; exact hroom)
  rw [Except.map_id] at hput
  rw [hi, store_eq_put h]
  exact hput

theorem memcpy_eq_put {src : List α} {n : ℕ} (h : w.length ≤ o.length) (hn : n ≤ src.length) :
    memcpy (overwrite w o) w.length src n = put o w (src.take n) := by
  have hlen : (src.take n).length = n := List.length_take_of_le hn
  rw [memcpy, if_neg (Nat.not_lt_of_le hn), length_overwrite h]
  by_cases hroom : w.length + n ≤ o.length
  · rw [if_neg (Nat.not_lt_of_le hroom), put_of_le (by rw [hlen]; exact hroom),
      drop_overwrite (Nat.le_add_right ..), overwrite, List.take_left, overwrite,
      List.append_assoc, List.length_append, hlen]
  · rw [if_pos (Nat.lt_of_not_le hroom), put_of_lt (by rw [hlen]; exact Nat.lt_of_not_le hroom)]

end Put

end Buffer
