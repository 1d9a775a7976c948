import Bluetea.Machine.Run
import Mathlib.Algebra.BigOperators.Group.Finset.Basic
import Mathlib.Algebra.Order.BigOperators.Group.Finset
import Mathlib.Logic.Function.Basic

/-!
# Threads and several locks

Threads run the same code over shared data and locks that are not recursive.  A thread is at a location,
which holds its local variables; `code l d` is what it does there when the data are `d`.

A discipline says which locks a thread holds at a location.  Where the code keeps it, a lock belongs to
the one thread that is where the discipline says (`Discipline.owned`).  Where in addition a thread waits
only for locks that come behind those it holds, there is no deadlock (`Discipline.exists_step`).  Where
every jump makes a measure of the location smaller, runs end (`add_sum_le`).
-/

namespace Locks

open Function

variable {ι κ L δ : Type*}

/-- What a thread does next. -/
inductive Instr (κ L δ : Type*)
  /-- One access to the data, and a jump. -/
  | go (d : δ) (l : L)
  | lock (m : κ) (l : L)
  /-- Goes on at `l` with the lock or, where it is taken, at `l'` without. -/
  | trylock (m : κ) (l l' : L)
  | unlock (m : κ) (l : L)
  | exit

/-- Where an instruction may lead. -/
def Instr.targets : Instr κ L δ → List L
  | go _ l | lock _ l | unlock _ l => [l]
  | trylock _ l l' => [l, l']
  | exit => []

/-- The data behind an instruction. -/
def Instr.after (d : δ) : Instr κ L δ → δ
  | go d' _ => d'
  | _ => d

structure State (ι κ L δ : Type*) where
  loc : ι → L
  owner : κ → Option ι
  data : δ

variable [DecidableEq ι] [DecidableEq κ]

/-- Thread `t` jumps. -/
def State.jump (s : State ι κ L δ) (t : ι) (l : L) : State ι κ L δ :=
  { s with loc := update s.loc t l }

def State.take (s : State ι κ L δ) (t : ι) (m : κ) (l : L) : State ι κ L δ :=
  { s.jump t l with owner := update s.owner m (some t) }

def State.release (s : State ι κ L δ) (t : ι) (m : κ) (l : L) : State ι κ L δ :=
  { s.jump t l with owner := update s.owner m none }

variable (code : L → δ → Instr κ L δ)

/-- What thread `t` does next. -/
def State.next (s : State ι κ L δ) (t : ι) : Instr κ L δ := code (s.loc t) s.data

/-- A step of a thread. -/
inductive Step (s : State ι κ L δ) : State ι κ L δ → Prop
  | go {t d l} (hnext : s.next code t = .go d l) : Step s { s.jump t l with data := d }
  | lock {t m l} (hnext : s.next code t = .lock m l) (hfree : s.owner m = none) :
      Step s (s.take t m l)
  | trylock {t m l l'} (hnext : s.next code t = .trylock m l l') (hfree : s.owner m = none) :
      Step s (s.take t m l)
  | busy {t m l l'} (hnext : s.next code t = .trylock m l l') (htaken : s.owner m ≠ none) :
      Step s (s.jump t l')
  | unlock {t m l} (hnext : s.next code t = .unlock m l) (hown : s.owner m = some t) :
      Step s (s.release t m l)

/-- The states that any order of steps may lead to. -/
def Reachable (s₀ : State ι κ L δ) : State ι κ L δ → Prop :=
  Relation.ReflTransGen (Step code) s₀

variable {code} {s₀ s s' : State ι κ L δ} {t u : ι} {m : κ} {l : L}

/-- **The invariant rule.** -/
theorem Reachable.invariant {Inv : State ι κ L δ → Prop} (h : Reachable code s₀ s) (h₀ : Inv s₀)
    (hstep : ∀ s s', Inv s → Step code s s' → Inv s') : Inv s := by
  induction h with
  | refl => exact h₀
  | tail _ hs ih => exact hstep _ _ ih hs

/-- One thread jumps, and changes the data as its instruction says. -/
theorem Step.leads (h : Step code s s') : ∃ t, ∃ l ∈ (s.next code t).targets,
    s'.loc = update s.loc t l ∧ s'.data = (s.next code t).after s.data := by
  cases h with
  | @go t d l hnext =>
    refine ⟨t, l, ?_, rfl, ?_⟩
    · rw [hnext]
      exact List.mem_singleton_self l
    · rw [hnext]
      rfl
  | @lock t m l hnext =>
    refine ⟨t, l, ?_, rfl, ?_⟩
    · rw [hnext]
      exact List.mem_singleton_self l
    · rw [hnext]
      rfl
  | @trylock t m l l' hnext =>
    refine ⟨t, l, ?_, rfl, ?_⟩
    · rw [hnext]
      exact List.mem_cons_self
    · rw [hnext]
      rfl
  -- a trylock has two targets, the second for the busy mutex
  | @busy t m l l' hnext =>
    refine ⟨t, l', ?_, rfl, ?_⟩
    · rw [hnext]
      exact List.mem_cons_of_mem _ (List.mem_singleton_self l')
    · rw [hnext]
      rfl
  | @unlock t m l hnext =>
    refine ⟨t, l, ?_, rfl, ?_⟩
    · rw [hnext]
      exact List.mem_singleton_self l
    · rw [hnext]
      rfl

/-! ### The discipline -/

/-- Which jumps are allowed from a location `l`, when `H l` are the locks held there. -/
def Instr.Respects (H : L → κ → Prop) (l : L) : Instr κ L δ → Prop
  | go _ l' => ∀ m, H l' m ↔ H l m
  | lock m l' => ∀ m', H l' m' ↔ m' = m ∨ H l m'
  | trylock m l' l'' => (∀ m', H l' m' ↔ m' = m ∨ H l m') ∧ ∀ m', H l'' m' ↔ H l m'
  | unlock m l' => H l m ∧ ∀ m', H l' m' ↔ m' ≠ m ∧ H l m'
  | exit => ∀ m, ¬H l m

/-- Every thread gives back what it holds and nothing else. -/
def Discipline (code : L → δ → Instr κ L δ) (H : L → κ → Prop) : Prop :=
  ∀ l d, (code l d).Respects H l

/-- The locks belong to the threads that are where the discipline says. -/
def Owned (H : L → κ → Prop) (s : State ι κ L δ) : Prop :=
  ∀ m t, s.owner m = some t ↔ H (s.loc t) m

variable {H : L → κ → Prop}

omit [DecidableEq κ] in
theorem Owned.jump (h : Owned H s) (hl : ∀ m, H l m ↔ H (s.loc t) m) : Owned H (s.jump t l) := by
  intro m u
  show s.owner m = some u ↔ H (update s.loc t l u) m
  rw [h m u]
  by_cases hu : u = t
  · rw [hu, update_self, hl]
  · rw [update_of_ne hu]

theorem Owned.take (h : Owned H s) (hfree : s.owner m = none)
    (hl : ∀ m', H l m' ↔ m' = m ∨ H (s.loc t) m') : Owned H (s.take t m l) := by
  intro m' u
  show update s.owner m (some t) m' = some u ↔ H (update s.loc t l u) m'
  by_cases hu : u = t
  · rw [hu, update_self, hl, ← h m' t]
    by_cases hm : m' = m
    · rw [hm, update_self]
      exact iff_of_true rfl (Or.inl rfl)
    · rw [update_of_ne hm]
      exact ⟨Or.inr, fun ho => ho.resolve_left hm⟩
  · rw [update_of_ne hu, ← h m' u]
    by_cases hm : m' = m
    · -- nobody else had the lock
      rw [hm, update_self, hfree]
      exact iff_of_false (fun ho => hu (Option.some.inj ho).symm) (Option.some_ne_none u).symm
    · rw [update_of_ne hm]

theorem Owned.release (h : Owned H s) (hown : s.owner m = some t)
    (hl : ∀ m', H l m' ↔ m' ≠ m ∧ H (s.loc t) m') : Owned H (s.release t m l) := by
  intro m' u
  show update s.owner m none m' = some u ↔ H (update s.loc t l u) m'
  by_cases hu : u = t
  · rw [hu, update_self, hl, ← h m' t]
    by_cases hm : m' = m
    · rw [hm, update_self]
      exact iff_of_false (Option.some_ne_none t).symm fun hne => hne.1 rfl
    · rw [update_of_ne hm]
      exact ⟨fun ho => ⟨hm, ho⟩, And.right⟩
  · rw [update_of_ne hu, ← h m' u]
    by_cases hm : m' = m
    · rw [hm, update_self, hown]
      exact iff_of_false (Option.some_ne_none u).symm fun ho => hu (Option.some.inj ho).symm
    · rw [update_of_ne hm]

/-- What one step keeps. -/
theorem Discipline.step (hcode : Discipline code H) (h : Owned H s) (hstep : Step code s s') :
    Owned H s' := by
  have hresp : ∀ t, (s.next code t).Respects H (s.loc t) := fun t => hcode _ _
  cases hstep with
  | @go t d l hnext =>
    have hl := hresp t
    rw [hnext] at hl
    exact h.jump hl
  | @lock t m l hnext hfree =>
    have hl := hresp t
    rw [hnext] at hl
    exact h.take hfree hl
  | @trylock t m l l' hnext hfree =>
    have hl := hresp t
    rw [hnext] at hl
    exact h.take hfree hl.1
  | @busy t m l l' hnext htaken =>
    have hl := hresp t
    rw [hnext] at hl
    exact h.jump hl.2
  | @unlock t m l hnext hown =>
    have hl := hresp t
    rw [hnext] at hl
    exact h.release hown hl.2

theorem Discipline.owned (hcode : Discipline code H) (h₀ : Owned H s₀) (h : Reachable code s₀ s) :
    Owned H s :=
  h.invariant h₀ fun _ _ hs hstep => hcode.step hs hstep

omit [DecidableEq ι] [DecidableEq κ] in
/-- Only one thread is where a lock is held. -/
theorem Owned.mutual_exclusion (h : Owned H s) (ht : H (s.loc t) m) (hu : H (s.loc u) m) :
    t = u := by
  rw [← h] at ht hu
  exact Option.some.inj (ht.symm.trans hu)

/-! ### Data that a lock guards -/

omit [DecidableEq κ] in
/-- What is known of the data belongs to the thread that has the lock or, when it is free, to any.  A
thread without the lock leaves the data alone, and where the lock is not held all know the same. -/
theorem Owned.stage_step {γ : Type*} {Stage : γ → L → δ → Prop} {g g' : γ} (h : Owned H s)
    (h' : Owned H s') (hloc : s'.loc = update s.loc t l)
    (hfree : ∀ g l l' d, ¬H l m → ¬H l' m → Stage g l d → Stage g l' d)
    (hother : ¬H (s.loc t) m → g' = g ∧ s'.data = s.data)
    (hself : Stage g (s.loc t) s.data → Stage g' l s'.data)
    (hs : ∀ u, s.owner m = none ∨ s.owner m = some u → Stage g (s.loc u) s.data) :
    ∀ u, s'.owner m = none ∨ s'.owner m = some u → Stage g' (s'.loc u) s'.data := by
  have hstay : ∀ u, u ≠ t → s'.loc u = s.loc u := by
    intro u hu
    rw [hloc, update_of_ne hu]
  have hjump : s'.loc t = l := by rw [hloc, update_self]
  -- whoever may know the data now did so before, unless thread `t` has given the lock back
  have hbefore : ∀ u, (s.owner m = some t → u = t) →
      s'.owner m = none ∨ s'.owner m = some u → s.owner m = none ∨ s.owner m = some u := by
    intro u hut hu
    cases hown : s.owner m with
    | none => exact Or.inl rfl
    | some v =>
      apply Or.inr
      by_cases hv : v = t
      · rw [hut (hv ▸ hown), hv]
      · have hkeeps : s'.owner m = some v := by
          rw [h' m v, hstay v hv]
          exact (h m v).mp hown
        rw [hkeeps] at hu
        exact hu.resolve_left (Option.some_ne_none v)
  intro u hu
  by_cases hut : u = t
  · rw [hut] at hu ⊢
    rw [hjump]
    exact hself (hs t (hbefore t (fun _ => rfl) hu))
  · rw [hstay u hut]
    by_cases hown : s.owner m = some t
    · have hleft : ¬H l m := by
        intro hH
        rw [← hjump, ← h' m t] at hH
        rw [hH] at hu
        rcases hu with hu | hu
        · cases hu
        · exact hut (Option.some.inj hu).symm
      have hnot : ¬H (s.loc u) m := by
        intro hH
        rw [← h m u, hown] at hH
        exact hut (Option.some.inj hH).symm
      exact hfree _ _ _ _ hleft hnot (hself (hs t (Or.inr hown)))
    · have hold := hs u (hbefore u (fun h => absurd h hown) hu)
      rw [h m t] at hown
      obtain ⟨rfl, hdata⟩ := hother hown
      rw [hdata]
      exact hold

/-! ### No deadlock -/

/-- A thread waits only for locks behind those that it holds. -/
def Ordered (code : L → δ → Instr κ L δ) (H : L → κ → Prop) (rank : κ → ℕ) : Prop :=
  ∀ l d m l', code l d = .lock m l' → ∀ m', H l m' → rank m' < rank m

variable {rank : κ → ℕ} {N : ℕ}

omit [DecidableEq ι] [DecidableEq κ] in
theorem Discipline.not_exit (hcode : Discipline code H) (ht : H (s.loc t) m) :
    s.next code t ≠ .exit := by
  intro hexit
  have hl : (s.next code t).Respects H (s.loc t) := hcode _ _
  rw [hexit] at hl
  exact hl m ht

/-- A thread is stuck only where it waits for a lock that is taken. -/
theorem Discipline.exists_step_of_free (hcode : Discipline code H) (h : Owned H s)
    (ht : s.next code t ≠ .exit) (hfree : ∀ m l, s.next code t = .lock m l → s.owner m = none) :
    ∃ s', Step code s s' := by
  cases hnext : s.next code t with
  | go d l => exact ⟨_, .go hnext⟩
  | lock m l => exact ⟨_, .lock hnext (hfree m l hnext)⟩
  | trylock m l l' =>
    by_cases hown : s.owner m = none
    · exact ⟨_, .trylock hnext hown⟩
    · exact ⟨_, .busy hnext hown⟩
  | unlock m l =>
    have hl : (s.next code t).Respects H (s.loc t) := hcode _ _
    rw [hnext] at hl
    exact ⟨_, .unlock hnext ((h m t).mpr hl.1)⟩
  | exit => exact absurd hnext ht

/-- As long as a thread has not come to its end, one can go on. -/
theorem Discipline.exists_step (hcode : Discipline code H) (hrank : Ordered code H rank)
    (hN : ∀ m, rank m < N) (h : Owned H s) (ht : s.next code t ≠ .exit) :
    ∃ s', Step code s s' := by
  -- from a thread that waits to the owner of the lock, which waits for a lock behind it, if at all
  suffices hwait : ∀ k t, s.next code t ≠ .exit →
      (∀ m l, s.next code t = .lock m l → N ≤ rank m + k) → ∃ s', Step code s s' from
    hwait N t ht fun m l _ => Nat.le_add_left ..
  intro k
  induction k with
  | zero =>
    intro t ht hk
    apply hcode.exists_step_of_free h ht
    intro m l hnext
    exact absurd (hk m l hnext) (Nat.not_le.mpr (hN m))
  | succ k ih =>
    intro t ht hk
    by_cases hfree : ∀ m l, s.next code t = .lock m l → s.owner m = none
    · exact hcode.exists_step_of_free h ht hfree
    · push Not at hfree
      obtain ⟨m, l, hnext, hown⟩ := hfree
      obtain ⟨u, hu⟩ := Option.ne_none_iff_exists'.mp hown
      have hheld := (h m u).mp hu
      apply ih u (hcode.not_exit hheld)
      intro m' l' hnext'
      have hlt : rank m < rank m' := hrank _ _ m' l' hnext' m hheld
      have hle := hk m l hnext
      omega

/-! ### Runs end -/

section Measure

variable [Fintype ι] {μ : L → ℕ} (hμ : ∀ l d, ∀ l' ∈ (code l d).targets, μ l' < μ l)

include hμ

/-- Every jump makes the measure smaller. -/
theorem Step.sum_lt (h : Step code s s') : ∑ t, μ (s'.loc t) < ∑ t, μ (s.loc t) := by
  obtain ⟨t, l, hl, hloc, -⟩ := h.leads
  have hlt := hμ _ _ l hl
  apply Finset.sum_lt_sum
  · intro u _
    rw [hloc]
    by_cases hu : u = t
    · rw [hu, update_self]
      exact Nat.le_of_lt hlt
    · rw [update_of_ne hu]
  · refine ⟨t, Finset.mem_univ t, ?_⟩
    rw [hloc, update_self]
    exact hlt

/-- What a run has taken and what is left is no more than what there was. -/
theorem add_sum_le {k : ℕ} (h : Machine.StepsOf (Step code) s₀ k s) :
    k + ∑ t, μ (s.loc t) ≤ ∑ t, μ (s₀.loc t) := by
  have hless : ∀ s s' : State ι κ L δ, True → Step code s s' →
      True ∧ ∑ t, μ (s'.loc t) < ∑ t, μ (s.loc t) :=
    fun _ _ _ hstep => ⟨trivial, hstep.sum_lt hμ⟩
  exact (h.add_measure_le hless trivial).2

/-- Every run can be taken to where nothing goes on. -/
theorem exists_last (s : State ι κ L δ) : ∃ s', Reachable code s s' ∧ ∀ s'', ¬Step code s' s'' := by
  have hless : ∀ s s' : State ι κ L δ, True → Step code s s' →
      True ∧ ∑ t, μ (s'.loc t) < ∑ t, μ (s.loc t) :=
    fun _ _ _ hstep => ⟨trivial, hstep.sum_lt hμ⟩
  exact Machine.exists_last hless trivial

end Measure

end Locks
