import Bluetea.Print.Equiv.Lines

/-!
# A signal handler that prints

`sig_handler` of `teatest.c` prints with `pr_emerg`.  If its signal strikes a thread that has `pr_print`,
the handler waits for a lock that its own thread has, which stays taken, no thread writes anything again,
and the process does not end; if it strikes anywhere else, the handler can finish (`handler_ends_iff`).
-/

namespace Bluetea.Print

open Function

variable {ι τ σ : Type*} {libc : Libc τ σ} [DecidableEq ι] {calls : ι → List Call} {timeinfo : σ}
  {timeChr : TimeChr} {s s' : Locks.State ι Mutex (Loc τ) (Data σ)} {t : ι} {handler : List Call}

/-! ### Struck with the lock -/

/-- The lock belongs to a thread that does not know of it, and nobody writes. -/
structure Frozen (t : ι) (out : List UInt8) (s : Locks.State ι Mutex (Loc τ) (Data σ)) : Prop where
  owner : s.owner .prPrint = some t
  outside : ∀ u, ¬(s.loc u).Holds .prPrint
  unfinished : s.loc t ≠ .idle []
  stdout : s.data.stdout = out

/-- Without `pr_print` a thread gets nowhere but to the lock. -/
theorem next_of_not_holds (libc : Libc τ σ) {l : Loc τ} (hl : ¬l.Holds .prPrint) (d : Data σ) :
    code libc l d = .exit ∨
    (∃ c todo, code libc l d = .go d (.call (.busyLock .prPrint busyTries) c todo)) ∨
    (∃ n c todo, code libc l d = .trylock .prPrint (.call (acquired .prPrint) c todo)
      (.call (retry .prPrint n) c todo)) ∨
    ∃ c todo, code libc l d = .lock .prPrint (.call (acquired .prPrint) c todo) := by
  cases l with
  | idle todo =>
    cases todo with
    | nil => exact Or.inl rfl
    | cons c todo => exact Or.inr (Or.inl ⟨c, todo, rfl⟩)
  | call pc c todo =>
    cases pc with
    | busyLock m n =>
      cases m with
      | prPrint => exact Or.inr (Or.inr (Or.inl ⟨n, c, todo, rfl⟩))
      | getTimeMt => exact absurd rfl hl
    | mutexLock m =>
      cases m with
      | prPrint => exact Or.inr (Or.inr (Or.inr ⟨c, todo, rfl⟩))
      | getTimeMt => exact absurd rfl hl
    | _ => exact absurd (by simp [Loc.Holds, Pc.Holds]) hl

/-- While `pr_print` is taken, and no thread knows of it, only places in front of the lock change. -/
theorem step_outside (houtside : ∀ u, ¬(s.loc u).Holds .prPrint) (htaken : s.owner .prPrint ≠ none)
    (hstep : Locks.Step (code libc) s s') : ∃ u pc c todo,
      s' = s.jump u (.call pc c todo) ∧ ¬(pc : Pc τ).Holds .prPrint := by
  have hcases := fun u => next_of_not_holds libc (houtside u) s.data
  cases hstep with
  | @go u d l hnext =>
    rcases hcases u with hcode | ⟨c, todo, hcode⟩ | ⟨n, c, todo, hcode⟩ | ⟨c, todo, hcode⟩ <;>
      cases hcode.symm.trans hnext
    exact ⟨u, _, c, todo, rfl, id⟩
  | @lock u m l hnext hfree =>
    rcases hcases u with hcode | ⟨c, todo, hcode⟩ | ⟨n, c, todo, hcode⟩ | ⟨c, todo, hcode⟩ <;>
      cases hcode.symm.trans hnext
    -- `pr_print` has an owner, so nobody else gets it
    exact absurd hfree htaken
  | @trylock u m l l' hnext hfree =>
    rcases hcases u with hcode | ⟨c, todo, hcode⟩ | ⟨n, c, todo, hcode⟩ | ⟨c, todo, hcode⟩ <;>
      cases hcode.symm.trans hnext
    exact absurd hfree htaken
  -- who finds it taken tries again, or goes on to the lock that waits
  | @busy u m l l' hnext hbusy =>
    rcases hcases u with hcode | ⟨c, todo, hcode⟩ | ⟨n, c, todo, hcode⟩ | ⟨c, todo, hcode⟩ <;>
      cases hcode.symm.trans hnext
    exact ⟨u, _, c, todo, rfl, fun hholds => (retry_holds .prPrint .prPrint n).mp hholds⟩
  | @unlock u m l hnext hown =>
    rcases hcases u with hcode | ⟨c, todo, hcode⟩ | ⟨n, c, todo, hcode⟩ | ⟨c, todo, hcode⟩ <;>
      cases hcode.symm.trans hnext

theorem Frozen.step {out : List UInt8} (h : Frozen t out s) (hstep : Locks.Step (code libc) s s') :
    Frozen t out s' := by
  have htaken : s.owner .prPrint ≠ none := by
    rw [h.owner]
    exact Option.some_ne_none t
  obtain ⟨u, pc, c, todo, rfl, hpc⟩ := step_outside h.outside htaken hstep
  have hloc : ∀ v, (s.jump u (.call pc c todo)).loc v = .call pc c todo ∨
      (s.jump u (.call pc c todo)).loc v = s.loc v := by
    intro v
    by_cases hv : v = u
    · rw [hv]
      exact Or.inl (update_self ..)
    · exact Or.inr (update_of_ne hv ..)
  refine ⟨h.owner, ?_, ?_, h.stdout⟩
  · intro v
    rcases hloc v with hv | hv
    · rw [hv]
      exact hpc
    · rw [hv]
      exact h.outside v
  · rcases hloc t with ht | ht
    · rw [ht]
      exact fun hidle => by cases hidle
    · rw [ht]
      exact h.unfinished

/-- Nobody but thread `t` had the lock, and it does not know of it any more. -/
theorem frozen_strike (h : Locks.Owned Loc.Holds s) (ht : (s.loc t).Holds .prPrint)
    (hne : handler ≠ []) : Frozen t s.data.stdout (strike s t handler) := by
  have hself : (strike s t handler).loc t = .idle handler := update_self ..
  refine ⟨(h .prPrint t).mpr ht, ?_, ?_, rfl⟩
  · intro u hu
    by_cases hut : u = t
    · rw [hut, hself] at hu
      exact hu
    · have hstay : (strike s t handler).loc u = s.loc u := update_of_ne hut ..
      rw [hstay] at hu
      exact hut (h.mutual_exclusion hu ht)
  · rw [hself]
    intro hidle
    cases hidle
    exact hne rfl

theorem Frozen.reachable {out : List UInt8} (h : Frozen t out s)
    (hreach : Locks.Reachable (code libc) s s') : Frozen t out s' :=
  hreach.invariant h fun _ _ hs hstep => hs.step hstep

/-! ### Struck without the lock -/

/-- The locks are with the threads that know of them. -/
theorem owned_strike (h : Locks.Owned Loc.Holds s) (ht : ¬(s.loc t).Holds .prPrint) :
    Locks.Owned Loc.Holds (strike s t handler) := by
  apply h.jump
  intro m
  exact iff_of_false id fun hm => ht hm.prPrint

/-- Where no lock has been lost, every thread can come to its end. -/
theorem exists_finished [Fintype ι] (libc : Libc τ σ) (h : Locks.Owned Loc.Holds s) :
    ∃ s', Locks.Reachable (code libc) s s' ∧ ∀ t, s'.loc t = .idle [] := by
  obtain ⟨s', hreach, hlast⟩ := Locks.exists_last (toGo_lt libc) s
  exact ⟨s', hreach, loc_of_last ((discipline libc).owned h hreach) hlast⟩

/-- **A signal handler that prints** can finish exactly when its signal has not struck a thread that has
`pr_print`.  If it has, that thread keeps `pr_print`, and no thread writes anything again. -/
theorem handler_ends_iff [Fintype ι]
    (h : Locks.Reachable (code libc) (start calls timeinfo timeChr) s) (t : ι) (hne : handler ≠ []) :
    ((∃ s', Locks.Reachable (code libc) (strike s t handler) s' ∧ s'.loc t = .idle []) ↔
      ¬(s.loc t).Holds .prPrint) ∧
    ((s.loc t).Holds .prPrint → ∀ s', Locks.Reachable (code libc) (strike s t handler) s' →
      s'.owner .prPrint = some t ∧ s'.data.stdout = s.data.stdout) := by
  have howned := owned_of_reachable h
  constructor
  · constructor
    · rintro ⟨s', hreach, hidle⟩ ht
      exact ((frozen_strike howned ht hne).reachable hreach).unfinished hidle
    · -- the others finish and give their locks back, and then the handler gets its own
      intro ht
      have hstruck : Locks.Owned Loc.Holds (strike s t handler) := owned_strike howned ht
      obtain ⟨s', hreach, hidle⟩ := exists_finished libc hstruck
      exact ⟨s', hreach, hidle t⟩
  · intro ht s' hreach
    have hfrozen := (frozen_strike howned ht hne).reachable hreach
    exact ⟨hfrozen.owner, hfrozen.stdout⟩

/-- The handler of SIGABRT strikes the thread that has written the head of its line. -/
theorem handler_ends_iff_printing : ∃ s : Locks.State Bool Mutex (Loc ℕ) (Data ℕ),
    (s.loc true).Holds .prPrint ∧
    ((∃ s', Locks.Reachable (code sampleLibc) (strike s true [prEmerg []]) s' ∧
      s'.loc true = .idle []) ↔ ¬(s.loc true).Holds .prPrint) ∧
    ((s.loc true).Holds .prPrint →
      ∀ s', Locks.Reachable (code sampleLibc) (strike s true [prEmerg []]) s' →
        s'.owner .prPrint = some true ∧ s'.data.stdout = s.data.stdout) := by
  obtain ⟨s, h, -, hloc, -⟩ := exists_printing
  refine ⟨s, ?_, handler_ends_iff h true (List.cons_ne_nil _ _)⟩
  rw [hloc]
  rfl

end Bluetea.Print
