import Bluetea.Machine.Run
import Mathlib.Algebra.GroupWithZero.Nat

/-!
# Budgets

An account grants what is asked of it as long as there is enough left, and forgets what it refuses.
Nothing but the sum decides whether all requests are granted (`answers_take_iff`).

The requests of a machine may depend on the state that its actions meet (`Machine.observed`), which the
simulation rule allows for (`Machine.run_simulates_observed`).
-/

/-! ### What a run asks for -/

namespace Machine

variable {σ α β ρ ε τ ρ' : Type*} {M : Machine σ α ρ ε} {f : σ → α → β}

/-- What `f` sees of the actions, each in the state it meets. -/
def observed (M : Machine σ α ρ ε) (f : σ → α → β) : σ → List α → List β
  | _, [] => []
  | s, a :: as => f s a :: match M.step s a with
    | .error _ => []
    | .ok (_, s') => observed M f s' as

theorem observed_cons {s s' : σ} {a : α} {r : ρ} (h : M.step s a = .ok (r, s')) (as : List α) :
    M.observed f s (a :: as) = f s a :: M.observed f s' as := by
  rw [observed, h]

/-- **The simulation rule**, for an abstract system that gets to see what `f` makes of an action. -/
theorem run_simulates_observed {R : σ → τ → Prop} {Means : ρ → ρ' → Prop}
    {astep : τ → β → ρ' × τ}
    (hstep : ∀ s t a, R s t → M.Pre s a → ∃ r s', M.step s a = .ok (r, s') ∧
      Means r (astep t (f s a)).1 ∧ R s' (astep t (f s a)).2)
    {s : σ} {t : τ} {as : List α} (hs : R s t) (has : M.Admissible s as) :
    ∃ rs s', M.run s as = .ok (rs, s') ∧
      List.Forall₂ Means rs (answers astep t (M.observed f s as)).1 ∧
      R s' (answers astep t (M.observed f s as)).2 := by
  induction as generalizing s t with
  | nil => exact ⟨[], s, rfl, List.Forall₂.nil, hs⟩
  | cons a as ih =>
    obtain ⟨hpre, has⟩ := has
    obtain ⟨r, s', hr, hmeans, hs'⟩ := hstep s t a hs hpre
    obtain ⟨rs, s'', hrs, hall, hs''⟩ := ih hs' (has r s' hr)
    rw [observed_cons hr]
    exact ⟨r :: rs, s'', run_cons hr hrs, hall.cons hmeans, hs''⟩

/-- What holds of every action that may be issued is observed everywhere. -/
theorem forall_mem_observed {P : β → Prop} {s : σ} {as : List α}
    (h : ∀ s, ∀ a ∈ as, M.Pre s a → P (f s a)) (has : M.Admissible s as) :
    ∀ b ∈ M.observed f s as, P b := by
  induction as generalizing s with
  | nil => exact fun b hb => absurd hb List.not_mem_nil
  | cons a as ih =>
    obtain ⟨hpre, has⟩ := has
    intro b hb
    rcases List.mem_cons.mp hb with rfl | hb
    · exact h s a (List.mem_cons_self ..) hpre
    · cases hstep : M.step s a with
      | error e =>
        rw [hstep] at hb
        exact absurd hb List.not_mem_nil
      | ok p =>
        rw [hstep] at hb
        exact ih (fun s a ha => h s a (List.mem_cons_of_mem _ ha)) (has p.1 p.2 hstep) b hb

end Machine

/-! ### Accounts -/

namespace Budget

/-- What may be asked of an account. -/
inductive Req
  /-- To start afresh with `n`. -/
  | renew (n : ℕ)
  | take (n : ℕ)
  /-- What is refused whatever there is. -/
  | refuse

def step (free : ℕ) : Req → Bool × ℕ
  | .renew n => (true, n)
  | .take n => if n ≤ free then (true, free - n) else (false, free)
  | .refuse => (false, free)

/-- How much is asked for. -/
def Req.size : Req → ℕ
  | take n => n
  | _ => 0

def Req.IsTake : Req → Prop
  | take _ => True
  | _ => False

theorem step_take_of_le {n free : ℕ} (h : n ≤ free) : step free (.take n) = (true, free - n) :=
  if_pos h

theorem step_take_of_lt {n free : ℕ} (h : free < n) : step free (.take n) = (false, free) :=
  if_neg (Nat.not_le.mpr h)

/-- All is granted exactly when there is enough for the sum. -/
theorem answers_take_iff {reqs : List Req} (h : ∀ q ∈ reqs, q.IsTake) (free : ℕ) :
    (∀ b ∈ (Machine.answers step free reqs).1, b = true) ↔ (reqs.map Req.size).sum ≤ free := by
  induction reqs generalizing free with
  | nil => exact iff_of_true (fun b hb => absurd hb List.not_mem_nil) (Nat.zero_le _)
  | cons q reqs ih =>
    have htake := h q (List.mem_cons_self ..)
    specialize ih fun q hq => h q (List.mem_cons_of_mem _ hq)
    cases q with
    | renew n => exact htake.elim
    | refuse => exact htake.elim
    | take n =>
      rw [List.map_cons, List.sum_cons, Machine.answers_cons, List.forall_mem_cons]
      show _ ↔ n + _ ≤ free
      -- a request that is refused takes nothing, but then not all are granted
      rcases Nat.lt_or_ge free n with hlt | hle
      · rw [step_take_of_lt hlt]
        apply iff_of_false
        · exact fun hall => Bool.false_ne_true hall.1
        · omega
      · rw [step_take_of_le hle, ih, and_iff_right rfl]
        omega

end Budget
