import Mathlib.Data.List.Forall2
import Mathlib.Logic.Relation

/-!
# Runs of a machine whose actions may fault

A `Machine` answers an action and moves to a new state, or faults.  `Pre s a` is what the caller
owes before it issues `a` in `s`; `Admissible s as` says that a whole list of actions is issued
with its debts paid, each in the state it really meets.

Four rules turn a fact about one step into a fact about every admissible run:

* `run_invariant`: an invariant that every admissible step keeps, without faulting, holds at the
  end of every admissible run, which does not fault;
* `run_preserves`: the same for a machine whose steps may fault, about the runs that do not;
* `run_good_iff`: if a step spoils something exactly when it breaks a rule, a run does exactly when
  one of its steps breaks it;
* `run_simulates`: if every admissible step agrees with a step of an abstract system, every
  admissible run agrees with the abstract run, answer by answer.

Since a prefix of an admissible run is an admissible run, a fact about the end of every run is a
fact about every state met on the way.
-/

/-- A machine with states `σ`, actions `α`, answers `ρ` and faults `ε`. -/
structure Machine (σ α ρ ε : Type*) where
  /-- One action: a fault, or an answer and the next state. -/
  step : σ → α → Except ε (ρ × σ)
  /-- What the caller owes before the action. -/
  Pre : σ → α → Prop

namespace Machine

variable {σ α ρ ε τ ρ' : Type*} (M : Machine σ α ρ ε)

/-- Issue the actions in order and collect the answers; the first fault ends the run. -/
def run : σ → List α → Except ε (List ρ × σ)
  | s, [] => .ok ([], s)
  | s, a :: as =>
    match M.step s a with
    | .error e => .error e
    | .ok (r, s') =>
      match run s' as with
      | .error e => .error e
      | .ok (rs, s'') => .ok (r :: rs, s'')

/-- Every action of the list is issued in a state where the caller may issue it. -/
def Admissible : σ → List α → Prop
  | _, [] => True
  | s, a :: as => M.Pre s a ∧ ∀ r s', M.step s a = .ok (r, s') → Admissible s' as

/-- The same machine under a stronger obligation. -/
def restrict (P : σ → α → Prop) : Machine σ α ρ ε where
  step := M.step
  Pre s a := M.Pre s a ∧ P s a

@[simp] theorem restrict_step (P : σ → α → Prop) : (M.restrict P).step = M.step := rfl

theorem run_restrict (P : σ → α → Prop) (s : σ) (as : List α) :
    (M.restrict P).run s as = M.run s as := by
  induction as generalizing s with
  | nil => rfl
  | cons a as ih => simp only [run, restrict_step, ih]

/-- The same machine with a history variable: `next` says what an action does to it. -/
def withHistory {γ : Type*} (next : γ → σ → α → γ) : Machine (σ × γ) α ρ ε where
  step s a := (M.step s.1 a).map fun (r, s') => (r, (s', next s.2 s.1 a))
  Pre s a := M.Pre s.1 a

variable {M}

theorem admissible_cons {s s' : σ} {a : α} {as : List α} {r : ρ} (hpre : M.Pre s a)
    (hstep : M.step s a = .ok (r, s')) (has : M.Admissible s' as) : M.Admissible s (a :: as) := by
  refine ⟨hpre, fun r₁ s₁ h => ?_⟩
  rw [hstep] at h
  cases h
  exact has

/-- A caller that owes nothing may issue any actions. -/
theorem admissible_of_pre (h : ∀ s a, M.Pre s a) {s : σ} (as : List α) : M.Admissible s as := by
  induction as generalizing s with
  | nil => trivial
  | cons a as ih => exact ⟨h s a, fun _ _ _ => ih⟩

theorem run_cons {s s' s'' : σ} {a : α} {as : List α} {r : ρ} {rs : List ρ}
    (h : M.step s a = .ok (r, s')) (hs : M.run s' as = .ok (rs, s'')) :
    M.run s (a :: as) = .ok (r :: rs, s'') := by
  simp only [run, h, hs]

/-- The two obligations of a restricted machine can be met one after the other. -/
theorem admissible_restrict {P : σ → α → Prop} {s : σ} {as : List α} (h : M.Admissible s as)
    (hP : Admissible ⟨M.step, P⟩ s as) : (M.restrict P).Admissible s as := by
  induction as generalizing s with
  | nil => trivial
  | cons a as ih => exact ⟨⟨h.1, hP.1⟩, fun r s' hstep => ih (h.2 r s' hstep) (hP.2 r s' hstep)⟩

/-- A run that does not fault begins with a step that does not. -/
theorem run_cons_inv {s s'' : σ} {a : α} {as : List α} {rs : List ρ}
    (h : M.run s (a :: as) = .ok (rs, s'')) :
    ∃ r s' rs', M.step s a = .ok (r, s') ∧ M.run s' as = .ok (rs', s'') ∧ rs = r :: rs' := by
  rw [run] at h
  cases hstep : M.step s a with
  | error e =>
    rw [hstep] at h
    cases h
  | ok p =>
    obtain ⟨r, s'⟩ := p
    rw [hstep] at h
    dsimp only at h
    cases hrun : M.run s' as with
    | error e =>
      rw [hrun] at h
      cases h
    | ok p =>
      rw [hrun] at h
      cases h
      exact ⟨r, s', p.1, rfl, hrun, rfl⟩

/-- A run that does not fault answers every action. -/
theorem length_answers {s s' : σ} {as : List α} {rs : List ρ} (h : M.run s as = .ok (rs, s')) :
    rs.length = as.length := by
  induction as generalizing s rs with
  | nil =>
    cases h
    rfl
  | cons a as ih =>
    obtain ⟨r, s₁, rs, -, hrest, rfl⟩ := run_cons_inv h
    rw [List.length_cons, List.length_cons, ih hrest]

theorem withHistory_step {γ : Type*} {next : γ → σ → α → γ} {s s' : σ} {a : α} {r : ρ}
    (h : M.step s a = .ok (r, s')) (g : γ) :
    (M.withHistory next).step (s, g) a = .ok (r, (s', next g s a)) := by
  simp only [withHistory, h, Except.map]

theorem admissible_withHistory {γ : Type*} {next : γ → σ → α → γ} {s : σ} {as : List α}
    (h : M.Admissible s as) (g : γ) : (M.withHistory next).Admissible (s, g) as := by
  induction as generalizing s g with
  | nil => trivial
  | cons a as ih =>
    refine ⟨h.1, fun r x hstep => ?_⟩
    simp only [withHistory] at hstep
    cases hM : M.step s a with
    | error e =>
      rw [hM] at hstep
      cases hstep
    | ok p =>
      rw [hM] at hstep
      cases hstep
      exact ih (h.2 _ _ hM) _

/-- A history variable does not change what a run does. -/
theorem run_of_withHistory {γ : Type*} {next : γ → σ → α → γ} {x y : σ × γ} {as : List α}
    {rs : List ρ} (h : (M.withHistory next).run x as = .ok (rs, y)) :
    M.run x.1 as = .ok (rs, y.1) := by
  induction as generalizing x rs with
  | nil =>
    cases h
    rfl
  | cons a as ih =>
    obtain ⟨r, x', rs', hstep, hrun, rfl⟩ := run_cons_inv h
    refine run_cons ?_ (ih hrun)
    simp only [withHistory] at hstep
    cases hM : M.step x.1 a with
    | error e =>
      rw [hM] at hstep
      cases hstep
    | ok p =>
      rw [hM] at hstep
      cases hstep
      rfl

/-- **The invariant rule.** -/
theorem run_invariant {Inv : σ → Prop}
    (hstep : ∀ s a, Inv s → M.Pre s a → ∃ r s', M.step s a = .ok (r, s') ∧ Inv s')
    {s : σ} {as : List α} (hs : Inv s) (has : M.Admissible s as) :
    ∃ rs s', M.run s as = .ok (rs, s') ∧ Inv s' := by
  induction as generalizing s with
  | nil => exact ⟨[], s, rfl, hs⟩
  | cons a as ih =>
    obtain ⟨hpre, has⟩ := has
    obtain ⟨r, s', hr, hs'⟩ := hstep s a hs hpre
    obtain ⟨rs, s'', hrs, hs''⟩ := ih hs' (has r s' hr)
    exact ⟨r :: rs, s'', run_cons hr hrs, hs''⟩

/-- **The invariant rule for machines that may stop.**  What every admissible step that does not
fault keeps holds at the end of every admissible run that does not fault. -/
theorem run_preserves {Inv : σ → Prop}
    (hstep : ∀ s a r s', Inv s → M.Pre s a → M.step s a = .ok (r, s') → Inv s')
    {s s' : σ} {as : List α} {rs : List ρ} (hs : Inv s) (has : M.Admissible s as)
    (hrun : M.run s as = .ok (rs, s')) : Inv s' := by
  induction as generalizing s rs with
  | nil =>
    cases hrun
    exact hs
  | cons a as ih =>
    obtain ⟨r, s₁, rs, hr, hrest, rfl⟩ := run_cons_inv hrun
    exact ih (hstep s a r s₁ hs has.1 hr) (has.2 r s₁ hr) hrest

/-- **The exactness rule.**  Where a step leaves `Good` alone exactly if `P` holds of it, a run does
exactly if `P` holds of all its steps. -/
theorem run_good_iff {Inv Good : σ → Prop} {P : σ → α → Prop}
    (hstep : ∀ s a, Inv s → M.Pre s a →
      ∃ r s', M.step s a = .ok (r, s') ∧ Inv s' ∧ (Good s' ↔ Good s ∧ P s a))
    {s : σ} {as : List α} (hs : Inv s) (has : M.Admissible s as) :
    ∃ rs s', M.run s as = .ok (rs, s') ∧
      (Good s' ↔ Good s ∧ (M.restrict P).Admissible s as) := by
  induction as generalizing s with
  | nil => exact ⟨[], s, rfl, fun h => ⟨h, trivial⟩, fun h => h.1⟩
  | cons a as ih =>
    obtain ⟨hpre, has⟩ := has
    obtain ⟨r, s', hr, hs', hgood⟩ := hstep s a hs hpre
    obtain ⟨rs, s'', hrs, hgood'⟩ := ih hs' (has r s' hr)
    refine ⟨r :: rs, s'', run_cons hr hrs, hgood'.trans ?_⟩
    constructor
    · -- a good state can only be reached through good ones, so the whole run has kept to `P`
      rintro ⟨hg, hadm⟩
      obtain ⟨hgs, hP⟩ := hgood.mp hg
      exact ⟨hgs, admissible_cons (M := M.restrict P) ⟨hpre, hP⟩ hr hadm⟩
    · rintro ⟨hgs, ⟨-, hP⟩, hadm⟩
      exact ⟨hgood.mpr ⟨hgs, hP⟩, hadm r s' hr⟩

/-- The answers and the last state of a system that never faults. -/
def answers (astep : τ → α → ρ' × τ) : τ → List α → List ρ' × τ
  | t, [] => ([], t)
  | t, a :: as =>
    let (r, t') := astep t a
    let (rs, t'') := answers astep t' as
    (r :: rs, t'')

theorem answers_cons (astep : τ → α → ρ' × τ) (t : τ) (a : α) (as : List α) :
    (answers astep t (a :: as)).1 = (astep t a).1 :: (answers astep (astep t a).2 as).1 := rfl

theorem answers_map {β : Type*} (astep : τ → β → ρ' × τ) (f : α → β) (t : τ) (as : List α) :
    answers astep t (as.map f) = answers (fun t a => astep t (f a)) t as := by
  induction as generalizing t with
  | nil => rfl
  | cons a as ih => simp only [List.map_cons, answers, ih]

/-- **The simulation rule.**  `R` relates the states and `Means` the answers. -/
theorem run_simulates {R : σ → τ → Prop} {Means : ρ → ρ' → Prop} {astep : τ → α → ρ' × τ}
    (hstep : ∀ s t a, R s t → M.Pre s a →
      ∃ r s', M.step s a = .ok (r, s') ∧ Means r (astep t a).1 ∧ R s' (astep t a).2)
    {s : σ} {t : τ} {as : List α} (hs : R s t) (has : M.Admissible s as) :
    ∃ rs s', M.run s as = .ok (rs, s') ∧ List.Forall₂ Means rs (answers astep t as).1 ∧
      R s' (answers astep t as).2 := by
  induction as generalizing s t with
  | nil => exact ⟨[], s, rfl, List.Forall₂.nil, hs⟩
  | cons a as ih =>
    -- the abstract system never faults, so the two runs go on together
    obtain ⟨hpre, has⟩ := has
    obtain ⟨r, s', hr, hmeans, hs'⟩ := hstep s t a hs hpre
    obtain ⟨rs, s'', hrs, hall, hs''⟩ := ih hs' (has r s' hr)
    exact ⟨r :: rs, s'', run_cons hr hrs, hall.cons hmeans, hs''⟩

/-! ### Runs that end

A measure that every step of a relation makes smaller bounds the length of a run
(`StepsOf.add_measure_le`), and every run can be taken to a state in which nothing goes on
(`exists_last`).  The steps need to make it smaller only where an invariant holds. -/

section

variable {r : σ → σ → Prop} {s₀ s : σ} {k : ℕ}

/-- A run of `k` steps. -/
inductive StepsOf (r : σ → σ → Prop) (s₀ : σ) : ℕ → σ → Prop
  | start : StepsOf r s₀ 0 s₀
  | step {k s s'} (h : StepsOf r s₀ k s) (hstep : r s s') : StepsOf r s₀ (k + 1) s'

variable {Inv : σ → Prop} {m : σ → ℕ} (hinv : ∀ s s', Inv s → r s s' → Inv s' ∧ m s' < m s)

include hinv

/-- What a run has taken and what the measure leaves it. -/
theorem StepsOf.add_measure_le (h₀ : Inv s₀) (h : StepsOf r s₀ k s) : Inv s ∧ k + m s ≤ m s₀ := by
  induction h with
  | start => exact ⟨h₀, Nat.le_of_eq (Nat.zero_add _)⟩
  | step _ hstep ih =>
    obtain ⟨hs, hle⟩ := ih
    obtain ⟨hs', hlt⟩ := hinv _ _ hs hstep
    exact ⟨hs', by omega⟩

theorem exists_last (h : Inv s) : ∃ s', Relation.ReflTransGen r s s' ∧ ∀ s'', ¬ r s' s'' := by
  induction hm : m s using Nat.strongRecOn generalizing s with
  | ind n ih =>
    by_cases hex : ∃ s', r s s'
    · obtain ⟨s', hstep⟩ := hex
      obtain ⟨hs', hlt⟩ := hinv s s' h hstep
      obtain ⟨s'', hsteps, hlast⟩ := ih _ (hm ▸ hlt) hs' rfl
      exact ⟨s'', hsteps.head hstep, hlast⟩
    · exact ⟨s, .refl, fun s' hstep => hex ⟨s', hstep⟩⟩

end

end Machine
