import Bluetea.Mutex.Equiv.CountMoves

/-!
# The invariant of the two threads that count

The number counted is the sum of what the two threads have added, and the second thread has come to its
end once it is joined (`Inv`).  Every step keeps this.
-/

namespace Bluetea.Mutex.BasicMutex

open Monitor Function

variable {rounds steps : ℕ} {s s' : State Thread Loc Data} {t u : Thread} {l l' : Loc} {d d' : Data}

/-- The thread has not been created. -/
def Early (l : Loc) : Prop := l = .init ∨ l = .create

instance : DecidablePred Early := fun l => inferInstanceAs (Decidable (l = .init ∨ l = .create))

structure Inv (rounds steps : ℕ) (s : State Thread Loc Data) : Prop where
  main_running : s.status .main = .running
  child_status : s.status .child = if Early (s.loc .main) then .fresh else .running
  fresh_begin : Early (s.loc .main) → s.loc .child = .begin
  main_loc : s.loc .main ≠ .begin
  child_loc : Worker (s.loc .child)
  ok : ∀ t, Ok rounds steps s.data (s.loc t)
  num : s.data.num = UInt64.ofNat
    (counted rounds steps (s.loc .main) + counted rounds steps (s.loc .child))
  start : s.data.start = true ↔ s.loc .child ≠ .begin
  made : Made (s.loc .main) → s.data.lockInit = true
  joined : Joined (s.loc .main) → s.loc .child = .exit

theorem owned_start (lockInit : Bool) : Owned Inside (start lockInit) := by
  refine ⟨fun t => ?_, fun t => ?_, fun t => ?_⟩ <;> cases t <;> simp [start, Inside]

theorem inv_start (rounds steps : ℕ) (lockInit : Bool) : Inv rounds steps (start lockInit) :=
  { main_running := rfl
    child_status := rfl
    fresh_begin := fun _ => rfl
    main_loc := by simp [start]
    child_loc := trivial
    ok := fun t => by cases t <;> trivial
    num := rfl
    start := by simp [start]
    made := False.elim
    joined := False.elim }

theorem Inv.awake (h : Inv rounds steps s) (t : Thread) :
    s.status t ≠ .woken ∧ s.status t ≠ .waiting := by
  cases t with
  | main =>
    rw [h.main_running]
    simp
  | child =>
    rw [h.child_status]
    split <;> simp

/-- A step is a move of one thread, with what `create` and `join` do besides. -/
theorem Inv.step_cases (h : Inv rounds steps s) (hstep : Step (code rounds steps) s s') :
    ∃ t l, s.status t = .running ∧ Move rounds steps t s.data (s.loc t) l s'.data ∧
      s'.loc = update s.loc t l ∧
      s'.status = (if s.loc t = .create then update s.status .child .running else s.status) ∧
      (s.loc t = .join → s.loc .child = .exit) ∧ (s.loc t = .await → s'.owner = s.owner) := by
  have hkind : ∀ t, Kind (s.loc t) (s.next (code rounds steps) t) := fun t => kind_code ..
  have hmove : ∀ t l d, (s.next (code rounds steps) t).Leads s.data l d →
      Move rounds steps t s.data (s.loc t) l d := fun t l d => move_of_leads
  cases hstep with
  | @go t d l hrun hnext =>
    have hk := hkind t
    rw [hnext] at hk
    exact ⟨t, l, hrun, hmove t l d (by rw [hnext]; exact ⟨rfl, rfl⟩), rfl, (if_neg hk.1).symm,
      fun hj => absurd hj hk.2, fun _ => rfl⟩
  | @lock t l hrun hnext hfree =>
    have hk := hkind t
    rw [hnext] at hk
    exact ⟨t, l, hrun, hmove t l _ (by rw [hnext]; exact ⟨rfl, rfl⟩), rfl, (if_neg hk.1).symm,
      fun hj => absurd hj hk.2.1, fun ha => absurd ha hk.2.2⟩
  | @unlock t l hrun hnext hown =>
    have hk := hkind t
    rw [hnext] at hk
    exact ⟨t, l, hrun, hmove t l _ (by rw [hnext]; exact ⟨rfl, rfl⟩), rfl, (if_neg hk.1).symm,
      fun hj => absurd hj hk.2.1, fun ha => absurd ha hk.2.2⟩
  | @create t u l hrun hnext hfresh =>
    have hk := hkind t
    rw [hnext] at hk
    obtain ⟨hk, rfl⟩ := hk
    exact ⟨t, l, hrun, hmove t l _ (by rw [hnext]; exact ⟨rfl, rfl⟩), rfl, (if_pos hk).symm,
      fun hj => (by rw [hk] at hj; cases hj), fun _ => rfl⟩
  | @join t u l hrun hnext hexit =>
    have hk := hkind t
    rw [hnext] at hk
    obtain ⟨hk, rfl⟩ := hk
    have hchild := hkind .child
    rw [hexit.2] at hchild
    exact ⟨t, l, hrun, hmove t l _ (by rw [hnext]; exact ⟨rfl, rfl⟩), rfl,
      (if_neg (by rw [hk]; simp)).symm, fun _ => hchild, fun _ => rfl⟩
  -- nobody waits on a condition here
  | @resume t hwoken hfree => exact absurd hwoken (h.awake t).1
  | @wait t l hrun hnext hown =>
    have hk := hkind t
    rw [hnext] at hk
    exact hk.elim
  | @signal t u l hrun hnext hwaiting =>
    have hk := hkind t
    rw [hnext] at hk
    exact hk.elim
  | @signalNone t l hrun hnext hnone =>
    have hk := hkind t
    rw [hnext] at hk
    exact hk.elim

theorem Inv.running_of_inside (h : Inv rounds steps s) (howned : Owned Inside s)
    (ht : Inside t (s.loc t)) : s.status t = .running := by
  cases hstatus : s.status t with
  | fresh => exact absurd ht (howned.fresh t hstatus)
  | running => rfl
  | waiting => exact absurd hstatus (h.awake t).2
  | woken => exact absurd hstatus (h.awake t).1

/-- The numbers that other threads have read stay right: they read inside the lock. -/
theorem Inv.ok_of_move (h : Inv rounds steps s) (howned : Owned Inside s) (hrun : s.status t = .running)
    (hmove : Move rounds steps t s.data (s.loc t) l s'.data) (hloc : s'.loc = update s.loc t l)
    (u : Thread) : Ok rounds steps s'.data (s'.loc u) := by
  have hok := h.ok u
  obtain ⟨hok', hnum⟩ := hmove.counted (h.ok t)
  rw [hloc]
  by_cases hu : u = t
  · rw [hu, update_self]
    exact hok'
  · rw [update_of_ne hu]
    rcases hnum with ⟨hnum, -⟩ | ⟨hin, -⟩
    · -- `num` stays as it was, and with it what the other thread has read
      cases hl : s.loc u with
      | store i j v =>
        rw [hl] at hok
        exact ⟨hok.1, hok.2.1, hok.2.2.trans hnum.symm⟩
      | _ =>
        rw [hl] at hok
        exact hok
    · -- `num` grows, but then the other thread is outside and has read nothing yet
      cases hl : s.loc u with
      | store i j v =>
        have hinside : Inside u (s.loc u) := by
          rw [hl]
          trivial
        exact absurd
          (howned.mutual_exclusion ⟨h.running_of_inside howned hinside, hinside⟩ ⟨hrun, hin⟩) hu
      | _ =>
        rw [hl] at hok
        exact hok

theorem num_eq_of_counted {a a' : ℕ} {n n' : UInt64} {P : Prop}
    (h : n' = n ∧ a' = a ∨ P ∧ n' = n + 1 ∧ a' = a + 1) (b : ℕ) (hn : n = UInt64.ofNat (a + b)) :
    n' = UInt64.ofNat (a' + b) := by
  rcases h with ⟨rfl, rfl⟩ | ⟨-, rfl, rfl⟩
  · exact hn
  · rw [hn, Nat.add_right_comm, UInt64.ofNat_add _ 1]
    rfl

theorem Inv.step (h : Inv rounds steps s) (howned : Owned Inside s)
    (hstep : Step (code rounds steps) s s') : Inv rounds steps s' := by
  obtain ⟨t, l, hrun, hmove, hloc, hstatus, hjoin, -⟩ := h.step_cases hstep
  have hok := h.ok_of_move howned hrun hmove hloc
  have hnum := (hmove.counted (h.ok t)).2
  cases t with
  | main =>
    have hmain : s'.loc .main = l := by rw [hloc, update_self]
    have hchild : s'.loc .child = s.loc .child := by rw [hloc, update_of_ne (by simp)]
    obtain ⟨hbegin, hstart, hmade, hjoined, hcreate, hinit⟩ := hmove.main h.main_loc h.made
    have hearly : Early l ↔ s.loc .main = .init := by
      simp [Early, hcreate, hinit]
    refine ⟨?_, ?_, ?_, hmain ▸ hbegin, hchild ▸ h.child_loc, hok, ?_, ?_, hmain ▸ hmade, ?_⟩
    · rw [hstatus]
      split <;> simp [h.main_running]
    · -- the thread is fresh up to the step of `create`
      have hold := h.child_status
      rw [hstatus, hmain]
      by_cases hc : s.loc .main = .create
      · rw [if_pos hc, update_self, if_neg (by rw [hearly, hc]; simp)]
      · rw [if_neg hc, hold]
        by_cases hi : s.loc .main = .init
        · have hold_early : Early (s.loc .main) := Or.inl hi
          rw [if_pos hold_early, if_pos (hearly.mpr hi)]
        · have hold_late : ¬Early (s.loc .main) := not_or.mpr ⟨hi, hc⟩
          rw [if_neg hold_late, if_neg (mt hearly.mp hi)]
    · rw [hmain, hchild, hearly]
      exact fun hi => h.fresh_begin (Or.inl hi)
    · rw [hmain, hchild]
      exact num_eq_of_counted hnum _ h.num
    · rw [hchild, hstart]
      exact h.start
    · -- only `join` leads to where the thread counts as joined
      rw [hmain, hchild]
      intro hj
      rcases hjoined hj with hj | hj
      · exact h.joined hj
      · exact hjoin hj
  | child =>
    have hmain : s'.loc .main = s.loc .main := by rw [hloc, update_of_ne (by simp)]
    have hchild : s'.loc .child = l := by rw [hloc, update_self]
    -- a thread that runs has been created
    have hlate : ¬Early (s.loc .main) := by
      intro hearly
      rw [h.child_status, if_pos hearly] at hrun
      cases hrun
    obtain ⟨hworker, hlock, hbegin, hstart⟩ := hmove.child h.child_loc
    have hne : s.loc .child ≠ .create := by
      intro hc
      have hw := h.child_loc
      rw [hc] at hw
      exact hw
    rw [if_neg hne] at hstatus
    refine ⟨?_, ?_, ?_, hmain ▸ h.main_loc, hchild ▸ hworker, hok, ?_, ?_, ?_, ?_⟩
    · rw [hstatus]
      exact h.main_running
    · rw [hstatus, hmain]
      exact h.child_status
    · rw [hmain]
      exact fun hearly => absurd hearly hlate
    · rw [hmain, hchild, Nat.add_comm]
      exact num_eq_of_counted hnum _ (by rw [Nat.add_comm]; exact h.num)
    · rw [hchild]
      rcases hstart with ⟨-, hstart⟩ | ⟨hold, hstart⟩
      · simp [hstart, hbegin]
      · simp [hstart, hbegin, h.start, hold]
    · rw [hmain, hlock]
      exact h.made
    · rw [hmain, hchild]
      intro hj
      -- a thread that has ended makes no move
      have hexit := h.joined hj
      rw [hexit] at hmove
      cases hmove

/-- Both in every state that some order of steps leads to. -/
theorem inv_of_reachable {lockInit : Bool}
    (h : Reachable (code rounds steps) (start lockInit) s) :
    Owned Inside s ∧ Inv rounds steps s := by
  have hstep : ∀ s s', Owned Inside s ∧ Inv rounds steps s → Step (code rounds steps) s s' →
      Owned Inside s' ∧ Inv rounds steps s' := by
    rintro s s' ⟨howned, hinv⟩ hstep
    exact ⟨discipline.step howned hstep, hinv.step howned hstep⟩
  have hwake : ∀ s s', Owned Inside s ∧ Inv rounds steps s → Spurious s s' →
      Owned Inside s' ∧ Inv rounds steps s' := by
    rintro s s' ⟨-, hinv⟩ ⟨hwaiting⟩
    exact absurd hwaiting (hinv.awake _).2
  exact h.invariant ⟨owned_start lockInit, inv_start rounds steps lockInit⟩ hstep hwake

end Bluetea.Mutex.BasicMutex
