import Bluetea.Mutex.Equiv.CondInv

/-!
# The two threads take turns, and no wakeup is lost

No assertion fails in any order of steps, the count is `3 * total` at the end (`basicCond_exact`), and
no run gets stuck or goes on for ever (`basicCond_terminates`).
-/

namespace Bluetea.Mutex.BasicCond

open Monitor Function

variable {total : ℕ} {s s' : State Thread Loc Data} {t u : Thread} {l l' : Loc} {d d' : Data}

/-! ### No assertion fails -/

theorem condVar_of_toNat {n : ℕ} (h : d.condVar.toNat = n) : d.condVar = UInt64.ofNat n := by
  rw [← h, UInt64.ofNat_toNat]

/-- The lock and the condition are there as long as a thread that is not done uses them. -/
theorem Inv.made (h : Inv total s) (hrun : s.status t = .running)
    (hmain : t = .main → 2 ≤ place .main (s.loc .main) ∧ place .main (s.loc .main) ≤ 12)
    (hchild : t = .child → place .child (s.loc .child) < 10) :
    s.data.condInit = true ∧ s.data.lockInit = true := by
  obtain ⟨hp, hs⟩ := h.places, h.sleeps
  have hplace : 2 ≤ place .main (s.loc .main) ∧ place .main (s.loc .main) ≤ 12 := by
    cases t with
    | main => exact hmain rfl
    | child =>
      have hlate : ¬place .main (s.loc .main) ≤ 2 := by
        rw [← hs.child_status, hrun]
        simp
      have hten := hchild rfl
      have hjoined := hp.joined
      omega
  exact ⟨hp.made.1 (by omega) (by omega), hp.made.2 (by omega) (by omega)⟩

/-- The turn that a location belongs to. -/
def Loc.turn? : Loc → Option Turn
  | .lock p | .test p | .before p | .incr p _ | .store p _ _ | .after p | .signal p => some p
  | _ => none

theorem owns_turn {p : Turn} (hplace : place t l < 15) (hp : l.turn? = some p) :
    (t = .main ∧ p = .second) ∨ (t = .child ∧ p = .first) ∨ (t = .child ∧ p = .third) := by
  cases t <;> cases p <;> cases l <;> simp_all [Loc.turn?, place]

/-- In a turn both are there. -/
theorem Inv.made_of_turn {p : Turn} (h : Inv total s) (hrun : s.status t = .running)
    (hp : (s.loc t).turn? = some p) : s.data.condInit = true ∧ s.data.lockInit = true := by
  refine h.made hrun ?_ ?_
  · rintro rfl
    have hplace := h.places.main_place
    unfold place at hplace ⊢
    split at hplace <;> simp_all [Loc.turn?]
  · rintro rfl
    have hplace := h.places.child_place
    unfold place at hplace ⊢
    split at hplace <;> simp_all [Loc.turn?]

theorem Inv.place_lt (h : Inv total s) (t : Thread) : place t (s.loc t) < 15 := by
  cases t with
  | main => exact h.places.main_place
  | child => exact h.places.child_place

/-- The number at the beginning of a turn. -/
theorem Inv.condVar_before {p : Turn} (h : Inv total s) (hl : s.loc t = .before p) :
    s.data.condVar = UInt64.ofNat (goal total p) := by
  have hp := h.places
  have hnum := hp.num
  have hmain := counted_main total hp.main_place
  have hchild := counted_child total hp.child_place
  have hplace := h.place_lt t
  have hsecond := hp.second
  have hthird := hp.third
  apply condVar_of_toNat
  rw [hl] at hplace
  -- the turns: the first and the third are the child's, the second is the main thread's
  rcases owns_turn hplace rfl with ⟨rfl, rfl⟩ | ⟨rfl, rfl⟩ | ⟨rfl, rfl⟩
  · have hsix : place .main (s.loc .main) = 6 := by rw [hl]; rfl
    rw [hnum, hmain.1 (by omega), hchild.2.1 (by omega) (by omega), Nat.zero_add]
    rfl
  · simp [place] at hplace
  · have hseven : place .child (s.loc .child) = 7 := by rw [hl]; rfl
    rw [hnum, hmain.2 (by omega), hchild.2.1 (by omega) (by omega), ← Nat.two_mul]
    rfl

/-- The number at the end of a turn. -/
theorem Inv.condVar_after {p : Turn} (h : Inv total s) (hl : s.loc t = .after p) :
    p = .first ∨ s.data.condVar = UInt64.ofNat (goal total p + total) := by
  have hp := h.places
  have hnum := hp.num
  have hmain := counted_main total hp.main_place
  have hchild := counted_child total hp.child_place
  have hplace := h.place_lt t
  have hsecond := hp.second
  have hthird := hp.third
  rw [hl] at hplace
  rcases owns_turn hplace rfl with ⟨rfl, rfl⟩ | ⟨rfl, rfl⟩ | ⟨rfl, rfl⟩
  · right
    have height : place .main (s.loc .main) = 8 := by rw [hl]; rfl
    apply condVar_of_toNat
    rw [hnum, hmain.2 (by omega), hchild.2.1 (by omega) (by omega)]
    rfl
  · exact Or.inl rfl
  · right
    have hnine : place .child (s.loc .child) = 9 := by rw [hl]; rfl
    apply condVar_of_toNat
    rw [hnum, hmain.2 (by omega), hchild.2.2 (by omega), Nat.add_comm]
    rfl

/-- The number when the thread has been joined. -/
theorem Inv.condVar_joined (h : Inv total s) (hjoined : 11 ≤ place .main (s.loc .main)) :
    s.data.condVar = UInt64.ofNat (3 * total) := by
  have hp := h.places
  have hten := hp.joined hjoined
  apply condVar_of_toNat
  rw [hp.num, (counted_main total hp.main_place).2 (by omega), (counted_child total hp.child_place).2.2 (by omega)]
  omega

theorem Inv.not_fail (h : Inv total s) (hrun : s.status t = .running) :
    s.next (code total) t ≠ .fail := by
  show code total t (s.loc t) s.data ≠ .fail
  cases hl : s.loc t with
  | lock p =>
    have hmade := h.made_of_turn hrun (by rw [hl]; rfl)
    rw [code, btMutexLock, if_pos hmade.2]
    simp
  | test p =>
    have hmade := h.made_of_turn hrun (by rw [hl]; rfl)
    rw [code, btCondWait, if_pos hmade.1, if_pos hmade.2]
    split <;> simp
  | before p =>
    rw [code, if_pos (h.condVar_before hl)]
    simp
  | after p =>
    have hmade := h.made_of_turn hrun (by rw [hl]; rfl)
    rw [code, if_pos (h.condVar_after hl), btMutexUnlock, if_pos hmade.2]
    simp
  | signal p =>
    have hmade := h.made_of_turn hrun (by rw [hl]; rfl)
    rw [code, btCondSignal, if_pos hmade.1]
    simp
  -- only the main thread reaches the final check, the child having left every critical section
  | check =>
    have hjoined : 11 ≤ place .main (s.loc .main) := by
      cases t with
      | main =>
        rw [hl]
        exact Nat.le_refl 11
      | child =>
        have hplace := h.places.child_place
        rw [hl] at hplace
        simp [place] at hplace
    rw [code, if_pos (h.condVar_joined hjoined)]
    simp
  | _ => simp [code]

/-! ### No run gets stuck -/

theorem Move.ne (h : Move total d l l' d') :
    l' ≠ l ∨ (l = .await ∧ d.start = false) ∨ ∃ p, l = .test p := by
  cases h with
  | spin hstart => exact Or.inr (Or.inl ⟨rfl, hstart⟩)
  | wait => exact Or.inr (Or.inr ⟨_, rfl⟩)
  | @lock p => cases p <;> simp [afterLock]
  | @unlock p => cases p <;> simp [afterUnlock]
  | @signal p => cases p <;> simp [afterSignal]
  | _ => simp

/-- A thread at a `test` goes on, or begins to wait. -/
theorem Inv.can_test {p : Turn} (h : Inv total s) (hrun : s.status t = .running)
    (hl : s.loc t = .test p) : ∃ s', Step (code total) s s' ∧ s' ≠ s := by
  have hmade := h.made_of_turn hrun (by rw [hl]; rfl)
  have hown : s.owner = some t := (h.owned.owner t).mpr ⟨hrun, by rw [hl]; trivial⟩
  have hnext : s.next (code total) t = code total t (.test p) s.data := by rw [← hl]; rfl
  by_cases hgoal : s.data.condVar = UInt64.ofNat (goal total p)
  · rw [code, if_neg (not_not_intro hgoal)] at hnext
    refine ⟨_, .go hrun hnext, fun hs => ?_⟩
    have hloc := congrFun (congrArg State.loc hs) t
    simp [hl] at hloc
  · rw [code, if_pos hgoal, btCondWait, if_pos hmade.1, if_pos hmade.2] at hnext
    refine ⟨_, .wait hrun hnext hown, fun hs => ?_⟩
    have howner := congrArg State.owner hs
    rw [hown] at howner
    cases howner

/-- A thread goes on when the lock is free, or its own, and what it waits for has happened. -/
theorem Inv.can_step (h : Inv total s) (hrun : s.status t = .running) (hexit : s.loc t ≠ .exit)
    (hawait : s.loc t = .await → s.data.start = true)
    (hjoin : s.loc t = .join → s.status .child = .running ∧ s.loc .child = .exit)
    (hfree : ¬Inside t (s.loc t) → s.owner = none) : ∃ s', Step (code total) s s' ∧ s' ≠ s := by
  by_cases htest : ∃ p, s.loc t = .test p
  · obtain ⟨p, hl⟩ := htest
    exact h.can_test hrun hl
  · have hcode : Discipline (code total) Inside := discipline
    have hkind : Kind total s.data (s.loc t) (s.next (code total) t) := kind_code ..
    have hlock' : ∀ l, s.next (code total) t = .lock l → s.owner = none := by
      intro l hnext
      have hresp := hcode.respects s t
      rw [hnext] at hresp
      exact hfree hresp.1
    have hcreate' : ∀ u l, s.next (code total) t = .create u l → s.status u = .fresh := by
      intro u l hnext
      rw [hnext] at hkind
      obtain ⟨hl, rfl, -⟩ := hkind
      rw [h.sleeps.child_status]
      cases t with
      | main =>
        rw [hl]
        exact Nat.le_refl 2
      | child =>
        have hplace := h.places.child_place
        rw [hl] at hplace
        simp [place] at hplace
    have hjoin' : ∀ u l, s.next (code total) t = .join u l →
        s.status u = .running ∧ s.next (code total) u = .exit := by
      intro u l hnext
      rw [hnext] at hkind
      obtain ⟨hl, rfl⟩ := hkind
      obtain ⟨hchild, hchild_exit⟩ := hjoin hl
      refine ⟨hchild, ?_⟩
      show code total .child (s.loc .child) s.data = .exit
      rw [hchild_exit]
      rfl
    have hexit' : s.next (code total) t ≠ .exit := by
      intro hnext
      rw [hnext] at hkind
      exact hexit hkind
    obtain ⟨s', l, hstep, hleads, hloc⟩ :=
      hcode.exists_step h.owned hrun hlock' hcreate' hjoin' hexit' (h.not_fail hrun)
    refine ⟨s', hstep, fun hs => ?_⟩
    -- a step that changes nothing stays at its place, which only the loop on `start` and a test do
    have hl : l = s.loc t := by
      have hself : s'.loc t = l := by rw [hloc, update_self]
      rw [← hself, hs]
    rcases (move_of_leads hleads).ne with hne | ⟨hl', hstart⟩ | htest'
    · exact hne hl
    · rw [hawait hl'] at hstart
      cases hstart
    · exact htest htest'

/-- The thread goes on when the lock is free. -/
theorem Inv.can_step_child (h : Inv total s) (hrun : s.status .child = .running)
    (hexit : s.loc .child ≠ .exit) (hfree : s.owner = none) :
    ∃ s', Step (code total) s s' ∧ s' ≠ s := by
  have hplace := h.places.child_place
  refine h.can_step hrun hexit (fun hl => ?_) (fun hl => ?_) fun _ => hfree
  · rw [hl] at hplace
    simp [place] at hplace
  · rw [hl] at hplace
    simp [place] at hplace

def Finished (s : State Thread Loc Data) : Prop := s.loc .main = .exit ∧ s.loc .child = .exit

/-- A thread that has been woken takes the free lock. -/
theorem can_resume (hwoken : s.status t = .woken) (hfree : s.owner = none) :
    ∃ s', Step (code total) s s' ∧ s' ≠ s := by
  refine ⟨_, .resume hwoken hfree, fun hs => ?_⟩
  have howner := congrArg State.owner hs
  rw [hfree] at howner
  cases howner

/-- Unless both threads are at their ends, one of them goes on: if the test sleeps then the thread is
on its way to the first signal, and if the thread sleeps then the test is on its way to the second. -/
theorem Inv.progress (h : Inv total s) :
    Finished s ∨ ∃ s', Step (code total) s s' ∧ s' ≠ s := by
  obtain ⟨hp, hs⟩ := h.places, h.sleeps
  cases howner : s.owner with
  | some t =>
    right
    obtain ⟨hrun, hin⟩ := (h.owned.owner t).mp howner
    refine h.can_step hrun ?_ ?_ ?_ fun hout => absurd hin hout
    · intro hl
      rw [hl] at hin
      exact hin
    · intro hl
      rw [hl] at hin
      exact hin.elim
    · intro hl
      rw [hl] at hin
      exact hin.elim
  | none =>
    by_cases hmain_woken : s.status .main = .woken
    · exact Or.inr (can_resume hmain_woken howner)
    by_cases hchild_woken : s.status .child = .woken
    · exact Or.inr (can_resume hchild_woken howner)
    -- the thread runs unless it has not been created or waits
    have hchild_run : 3 ≤ place .main (s.loc .main) → s.status .child ≠ .waiting →
        s.status .child = .running := by
      intro hlate hwait
      have hfresh : s.status .child ≠ .fresh := by
        rw [Ne, hs.child_status]
        omega
      cases hst : s.status .child with
      | running => rfl
      | fresh => exact absurd hst hfresh
      | waiting => exact absurd hst hwait
      | woken => exact absurd hst hchild_woken
    cases hmain : s.status .main with
    | fresh => exact absurd hmain hs.main_status
    | woken => exact absurd hmain hmain_woken
    | waiting =>
      right
      have hfive := hs.main_asleep (by simp [hmain])
      have hfour := hs.signal_first hmain
      refine h.can_step_child (hchild_run (by omega) fun hw => ?_) (fun hl => ?_) howner
      · have hsix := hs.child_asleep (by simp [hw]) (by simp [hw])
        omega
      · rw [hl] at hfour
        simp [place] at hfour
    | running =>
      by_cases hexit : s.loc .main = .exit
      · left
        refine ⟨hexit, loc_of_place_child.2.2 (hp.joined ?_)⟩
        rw [hexit]
        simp [place]
      · right
        by_cases hchild : s.loc .child = .exit
        · -- the thread is done
          have hten : place .child (s.loc .child) = 10 := by rw [hchild]; rfl
          have hlate := hp.third (by omega)
          refine h.can_step hmain hexit (fun _ => hp.start.mpr (by omega)) (fun _ => ⟨?_, hchild⟩)
            fun _ => howner
          refine hchild_run (by omega) fun hw => ?_
          have hsix := hs.child_asleep (by simp [hw]) (by simp [hw])
          omega
        · by_cases hawait : s.loc .main = .await ∨ s.loc .main = .join
          · -- the test waits for the thread, which does not sleep
            have hlate : 3 ≤ place .main (s.loc .main) := by
              rcases hawait with hl | hl <;> rw [hl] <;> simp [place]
            by_cases hwait : s.status .child = .waiting
            · have hsix := hs.child_asleep (by simp [hwait]) (by simp [hwait])
              have hnine := hs.signal_second hwait
              have hl : s.loc .main = .await := by
                rcases hawait with hl | hl
                · exact hl
                · rw [hl] at hnine
                  simp [place] at hnine
              refine h.can_step hmain hexit (fun _ => hp.start.mpr (by omega)) (fun hj => ?_)
                fun _ => howner
              rw [hl] at hj
              cases hj
            · exact h.can_step_child (hchild_run hlate hwait) hchild howner
          · obtain ⟨hna, hnj⟩ := not_or.mp hawait
            exact h.can_step hmain hexit (fun hl => absurd hl hna) (fun hl => absurd hl hnj)
              fun _ => howner

/-! ### No run goes on for ever -/

/-- The moves that thread `t` has left, where a signal counts for three, since it may wake the other
thread, and taking the lock in front of a `test` for two. -/
def left (total : ℕ) : Thread → Loc → ℕ
  | .main, .destroy => 1
  | .main, .condDestroy => 2
  | .main, .check => 3
  | .main, .join => 4
  | .main, .signal _ => 7
  | .main, .after _ => 8
  | .main, .store _ i _ => 2 * (total + 1 - i) + 8
  | .main, .incr _ i => 2 * (total + 1 - i) + 9
  | .main, .before _ => 2 * total + 10
  | .main, .test _ => 2 * total + 11
  | .main, .lock _ => 2 * total + 13
  | .main, .await => 2 * total + 14
  | .main, .create => 2 * total + 15
  | .main, .init => 2 * total + 16
  | .main, .condInit => 2 * total + 17
  | .child, .after .third => 1
  | .child, .store .third i _ => 2 * (total + 1 - i) + 1
  | .child, .incr .third i => 2 * (total + 1 - i) + 2
  | .child, .before .third => 2 * total + 3
  | .child, .test .third => 2 * total + 4
  | .child, .lock .third => 2 * total + 6
  | .child, .signal .first => 2 * total + 9
  | .child, .after .first => 2 * total + 10
  | .child, .store .first i _ => 2 * (total + 1 - i) + 2 * total + 10
  | .child, .incr .first i => 2 * (total + 1 - i) + 2 * total + 11
  | .child, .lock .first => 4 * total + 12
  | .child, .begin => 4 * total + 13
  | _, _ => 0

/-- A thread at a `test` may yet begin to wait. -/
def testing : Loc → ℕ
  | .test _ => 1
  | _ => 0

/-- What a thread that sleeps does before it is at its `test` again, and asleep again. -/
def awake (l : Loc) : Status → ℕ
  | .running => testing l
  | .woken => 2
  | _ => 0

def remaining (total : ℕ) (s : State Thread Loc Data) : ℕ :=
  left total .main (s.loc .main) + awake (s.loc .main) (s.status .main)
    + (left total .child (s.loc .child) + awake (s.loc .child) (s.status .child))

theorem testing_le (l : Loc) : testing l ≤ 1 := by
  cases l <;> simp [testing]

theorem Move.left_lt (h : Move total d l l' d') (hok : Ok total d l) (hplace : place t l < 15) :
    (l = .await ∧ l' = l ∧ d' = d) ∨ (∃ p, l = .test p ∧ l' = l) ∨
      left total t l' + testing l' + 1 ≤ left total t l + testing l := by
  cases h with
  | spin => exact Or.inl ⟨rfl, rfl, rfl⟩
  | wait => exact Or.inr (Or.inl ⟨_, rfl, rfl⟩)
  | @load p i hi =>
    right
    right
    cases t <;> cases p <;> simp [left, testing, place] at hplace ⊢
  | @endLoop p i hi =>
    right
    right
    cases t <;> cases p <;> simp [left, testing, place] at hplace ⊢
  | @store p i v =>
    have hle := hok.2.1
    right
    right
    cases t <;> cases p <;> simp [left, testing, place] at hplace ⊢ <;> omega
  | @before p => cases t <;> cases p <;> simp [left, testing, place] at hplace ⊢
  | @lock p => cases t <;> cases p <;> simp [left, testing, place, afterLock] at hplace ⊢; omega
  | @pass p => cases t <;> cases p <;> simp [left, testing, place] at hplace ⊢
  | @unlock p => cases t <;> cases p <;> simp [left, testing, place, afterUnlock] at hplace ⊢
  | @signal p => cases t <;> cases p <;> simp [left, testing, place, afterSignal] at hplace ⊢
  | _ => cases t <;> simp [left, testing, place] at hplace ⊢

theorem left_signal (total : ℕ) {p : Turn} (hplace : place t (.signal p) < 15) :
    left total t (.signal p) = left total t (afterSignal p) + 3 := by
  cases t <;> cases p <;> simp [left, place, afterSignal] at hplace ⊢

/-- What changes for one thread only. -/
theorem remaining_lt {t : Thread}
    (hself : left total t (s'.loc t) + awake (s'.loc t) (s'.status t) + 1
      ≤ left total t (s.loc t) + awake (s.loc t) (s.status t))
    (hothers : ∀ u, u ≠ t → left total u (s'.loc u) + awake (s'.loc u) (s'.status u)
      = left total u (s.loc u) + awake (s.loc u) (s.status u)) :
    remaining total s' + 1 ≤ remaining total s := by
  unfold remaining
  cases t with
  | main =>
    have hchild := hothers .child (by simp)
    omega
  | child =>
    have hmain := hothers .main (by simp)
    omega

/-- A step is idle, or it makes the measure smaller. -/
theorem Inv.step_left (h : Inv total s) (hstep : Step (code total) s s') (hne : s' ≠ s) :
    remaining total s' + 1 ≤ remaining total s := by
  have hs := h.sleeps
  cases effect_of_step hstep with
  | move t l hrun hmove hloc hstatus hcreate hjoin htest hsignal howner =>
    rcases hmove.left_lt (h.places.ok t) (h.place_lt t) with ⟨hl, hsame, hdata⟩ | ⟨p, hl, hsame⟩ | hlt
    · -- the loop that awaits `start`: nothing has changed
      have hself : update s.loc t l = s.loc := by rw [hsame, update_eq_self]
      rw [hself] at hloc
      have hown := howner hl
      obtain ⟨loc, status, owner, data⟩ := s'
      subst hloc hstatus hown hdata
      exact absurd rfl hne
    · -- a move from a test passes it, since to wait is a case of its own
      rw [htest p hl, hl] at hsame
      cases hsame
    · refine remaining_lt (t := t) ?_ fun u hu => ?_
      · rw [hloc, update_self, hstatus, hrun]
        exact hlt
      · rw [hloc, update_of_ne hu, hstatus]
  | wait t p hrun hl hgoal hloc hdata hstatus =>
    refine remaining_lt (t := t) ?_ fun u hu => ?_
    · rw [hloc, hstatus, update_self, hrun, hl]
      simp [awake, testing]
    · rw [hloc, hstatus, update_of_ne hu]
  | resume t hwoken hloc hdata hstatus =>
    refine remaining_lt (t := t) ?_ fun u hu => ?_
    · -- to be awake again is worth more than to have to test once more
      have hle := testing_le (s.loc t)
      rw [hloc, hstatus, update_self, hwoken]
      simp only [awake]
      omega
    · rw [hloc, hstatus, update_of_ne hu]
  | signal t u p hrun hl hwaiting hloc hdata hstatus =>
    have hplace := h.place_lt t
    rw [hl] at hplace
    have hthree := left_signal total hplace
    have hut : u ≠ t := by
      rintro rfl
      rw [hrun] at hwaiting
      cases hwaiting
    have hafter : testing (afterSignal p) = 0 := by cases p <;> rfl
    unfold remaining
    cases t with
    | main =>
      obtain rfl : u = .child := by cases u with
        | main => exact absurd rfl hut
        | child => rfl
      simp [hloc, hstatus, hl, hrun, hwaiting, awake, hthree, hafter]
      omega
    | child =>
      obtain rfl : u = .main := by cases u with
        | main => rfl
        | child => exact absurd rfl hut
      simp [hloc, hstatus, hl, hrun, hwaiting, awake, hthree, hafter]
      omega
  | create t hrun hl hloc hdata hstatus =>
    cases t with
    | main =>
      -- the new thread has tested nothing yet
      have hfresh := hs.child_status.mpr (by rw [hl]; exact Nat.le_refl 2)
      have hbegin := hs.fresh_begin (by rw [hl]; exact Nat.le_refl 2)
      have htesting : testing (s.loc .child) = 0 := by
        cases hchild : s.loc .child with
        | test p =>
          rw [hchild] at hbegin
          cases p <;> simp [place] at hbegin
        | _ => rfl
      have hmain : left total .main .create = left total .main .await + 1 := rfl
      have hcreate : testing .create = testing .await := rfl
      simp only [remaining, hloc, hstatus, hl, hrun, hfresh, awake, htesting, hmain, hcreate,
        update_self, update_of_ne, ne_eq, reduceCtorEq, not_false_eq_true]
      omega
    | child =>
      -- only the test creates a thread
      have hplace := h.places.child_place
      rw [hl] at hplace
      simp [place] at hplace

theorem Inv.wake_left (hwake : Spurious s s') : remaining total s' ≤ remaining total s + 2 := by
  cases hwake with
  | @wake t hwaiting =>
    cases t <;> simp [remaining, hwaiting, awake] <;> omega

/-! ### All runs -/

/-- In every order of steps, with any number of wakings for no reason: only one thread is inside the
lock; no assertion fails; a thread that waits has not been passed by the signal it waits for; and
when the thread has been joined it has been counted to `3 * total`. -/
theorem basicCond_exact (hpos : 0 < total) (hlt : 3 * total < 2 ^ 64)
    (h : Reachable (code total) start s) :
    (∀ t u, s.status t = .running ∧ Inside t (s.loc t) → s.status u = .running ∧ Inside u (s.loc u) →
        t = u) ∧
      (∀ t, s.status t = .running → s.next (code total) t ≠ .fail) ∧
      (s.status .main = .waiting → place .child (s.loc .child) ≤ place .child (.signal .first)) ∧
      (s.status .child = .waiting → place .main (s.loc .main) ≤ place .main (.signal .second)) ∧
      (place .main .check ≤ place .main (s.loc .main) →
        s.data.condVar = UInt64.ofNat (3 * total)) := by
  have hinv := inv_of_reachable hpos hlt h
  exact ⟨fun t u => hinv.owned.mutual_exclusion, fun t => hinv.not_fail, hinv.sleeps.signal_first,
    hinv.sleeps.signal_second, hinv.condVar_joined⟩

/-- With `total = 1`.  The test waits for the thread, the thread then waits for the test, and each wakes
the other. -/
def turns : List Thread :=
  -- both are made, the thread is created and sets `start`, and the test waits
  [.main, .main, .main, .child, .main, .main, .main,
    -- the thread counts to 1, signals, and waits
    .child, .child, .child, .child, .child, .child, .child, .child,
    -- the test goes on and counts to 2, signals, and joins
    .main, .main, .main, .main, .main, .main, .main, .main,
    -- the thread goes on and counts to 3
    .child, .child, .child, .child, .child, .child, .child,
    .main, .main, .main]

theorem exists_destroy :
    ∃ s, Run (code 1) start turns.length 0 s ∧ s.loc .main = .destroy := by
  have hplay : (start.play (code 1) [.main, .child] turns).map (fun s => s.loc .main)
      = some .destroy := by decide +kernel
  obtain ⟨s, hs, hloc⟩ := Option.map_eq_some_iff.mp hplay
  exact ⟨s, Nat.zero_add turns.length ▸ Run.start.play mem_threads hs, hloc⟩

theorem basicCond_exact_destroy :
    ∃ s, Run (code 1) start turns.length 0 s ∧ s.loc .main = .destroy ∧
      (∀ t u, s.status t = .running ∧ Inside t (s.loc t) →
        s.status u = .running ∧ Inside u (s.loc u) → t = u) ∧
      (∀ t, s.status t = .running → s.next (code 1) t ≠ .fail) ∧
      s.data.condVar = UInt64.ofNat (3 * 1) := by
  obtain ⟨s, hrun, hloc⟩ := exists_destroy
  obtain ⟨hmutex, hfail, -, -, hcount⟩ :=
    basicCond_exact (show 0 < 1 by decide) (by decide) hrun.reachable
  exact ⟨s, hrun, hloc, hmutex, hfail, hcount (by rw [hloc]; decide)⟩

/-- No order of steps gets stuck before both threads are done, and only wakings for no reason could
keep them going: a run has at most `6 * total + 30` steps and two for each of these, besides the idle
ones of `while (!data.start)`. -/
theorem basicCond_terminates (hpos : 0 < total) (hlt : 3 * total < 2 ^ 64) {k w : ℕ}
    (h : Run (code total) start k w s) :
    (Finished s ∨ ∃ s', Step (code total) s s' ∧ s' ≠ s) ∧ k ≤ 6 * total + 30 + 2 * w := by
  have hinv := inv_of_reachable hpos hlt h.reachable
  refine ⟨hinv.progress, ?_⟩
  have hle := h.length_le (fun s hs => inv_of_reachable hpos hlt hs)
    (fun s s' hs hstep hne => hs.step_left hstep hne) (fun s s' _ hwake => Inv.wake_left hwake)
  have hstart : remaining total start = 6 * total + 30 := by
    simp only [remaining, start, left, awake, testing]
    omega
  omega

theorem basicCond_terminates_destroy :
    ∃ s, Run (code 1) start turns.length 0 s ∧ s.loc .main = .destroy ∧
      (Finished s ∨ ∃ s', Step (code 1) s s' ∧ s' ≠ s) ∧ turns.length ≤ 6 * 1 + 30 + 2 * 0 := by
  obtain ⟨s, hrun, hloc⟩ := exists_destroy
  exact ⟨s, hrun, hloc, basicCond_terminates (by decide) (by decide) hrun⟩

end Bluetea.Mutex.BasicCond
