import Bluetea.Mutex.Equiv.CountInv
import Mathlib.Tactic.Ring

/-!
# The two threads count exactly

Whatever the order of the steps, only one thread is inside the lock (`Inside`), no assertion fails,
and when the test has joined its thread it has counted to `2 * rounds * steps`
(`basicMutex_exact`).  No run gets stuck, and all have the same number of steps besides the idle ones
of the loop that awaits `start` (`basicMutex_terminates`).
-/

namespace Bluetea.Mutex.BasicMutex

open Monitor Function

variable {rounds steps : ℕ} {s s' : State Thread Loc Data} {t u : Thread} {l l' : Loc} {d d' : Data}

/-! ### Progress -/

/-- The moves that thread `t` has left, the idle ones apart. -/
def left (rounds steps : ℕ) (t : Thread) : Loc → ℕ
  | .exit => 0
  | .destroy => 1
  | .check => 2
  | .join => 3
  | .outer i => (rounds - i) * (2 * steps + 2) + behind
  | .inner i j => (rounds - (i + 1)) * (2 * steps + 2) + behind + 2 * (steps - j) + 1
  | .store i j _ => (rounds - (i + 1)) * (2 * steps + 2) + behind + 2 * (steps - j)
  | .begin | .await => rounds * (2 * steps + 2) + behind + 1
  | .create => rounds * (2 * steps + 2) + behind + 2
  | .init => rounds * (2 * steps + 2) + behind + 3
where
  /-- The moves behind the loop, with the one that leaves it. -/
  behind : ℕ := match t with
    | .main => 4
    | .child => 1

theorem Move.left (h : Move rounds steps t d l l' d') (hok : Ok rounds steps d l) :
    (l = .await ∧ d.start = false ∧ l' = l ∧ d' = d) ∨
      left rounds steps t l = left rounds steps t l' + 1 := by
  cases h with
  -- spinning on `start` is the one move that leaves the measure alone
  | spin hstart => exact Or.inl ⟨rfl, hstart, rfl, rfl⟩
  | @lock i hi =>
    obtain ⟨k, rfl⟩ := Nat.exists_eq_add_of_lt hi
    right
    simp only [left]
    rw [show i + k + 1 - i = k + 1 by omega, show i + k + 1 - (i + 1) = k by omega,
      Nat.sub_zero]
    ring
  | endLoop hi =>
    obtain rfl := Nat.le_antisymm hok hi
    right
    cases t <;> simp [left, left.behind, afterLoop]
  | unlock hj =>
    obtain rfl := Nat.le_antisymm hok.2 hj
    right
    simp [left]
  | @load i j hj =>
    right
    simp only [left]
  | @store i j v =>
    have hj := hok.2.1
    right
    simp only [left]
    omega
  | _ =>
    right
    simp [left]

/-- The lock is there as long as a thread uses it. -/
theorem Inv.lockInit (h : Inv rounds steps s) (hrun : s.status t = .running)
    (hloop : (∃ i, s.loc t = .outer i) ∨ ∃ i j, s.loc t = .inner i j) : s.data.lockInit = true := by
  apply h.made
  cases t with
  | main => rcases hloop with ⟨i, hl⟩ | ⟨i, j, hl⟩ <;> rw [hl] <;> trivial
  | child =>
    -- otherwise the thread has not been created, or it has been joined
    have hlate : ¬Early (s.loc .main) := by
      intro hearly
      rw [h.child_status, if_pos hearly] at hrun
      cases hrun
    have hexit : s.loc .child ≠ .exit := by
      rcases hloop with ⟨i, hl⟩ | ⟨i, j, hl⟩ <;> rw [hl] <;> simp
    cases hmain : s.loc .main with
    | init => exact absurd (Or.inl hmain) hlate
    | exit => exact absurd (h.joined (by rw [hmain]; trivial)) hexit
    | _ => trivial

theorem Inv.not_fail (h : Inv rounds steps s) (hrun : s.status t = .running) :
    s.next (code rounds steps) t ≠ .fail := by
  have hlock := h.lockInit hrun
  show code rounds steps t (s.loc t) s.data ≠ .fail
  cases hl : s.loc t with
  | outer i =>
    rw [code, btMutexLock, if_pos (hlock (Or.inl ⟨i, hl⟩))]
    split <;> simp
  | inner i j =>
    rw [code, btMutexUnlock, if_pos (hlock (Or.inr ⟨i, j, hl⟩))]
    split <;> simp
  | check =>
    cases t with
    -- behind the join both counts are full, and `num` is their sum
    | main =>
      have hexit := h.joined (by rw [hl]; trivial)
      have hnum := h.num
      rw [hl, hexit] at hnum
      rw [code, hnum, if_pos (by simp only [counted]; rw [Nat.mul_two])]
      simp
    | child =>
      have hworker := h.child_loc
      rw [hl] at hworker
      exact hworker.elim
  | await =>
    rw [code]
    simp
  | _ => simp [code]

/-- A thread goes on if nobody else is inside the lock and what it waits for has happened. -/
theorem Inv.can_step (h : Inv rounds steps s) (howned : Owned Inside s) (hrun : s.status t = .running)
    (hexit : s.loc t ≠ .exit) (hawait : s.loc t = .await → s.data.start = true)
    (hcreate : s.loc t = .create → s.status .child = .fresh)
    (hjoin : s.loc t = .join → s.status .child = .running ∧ s.loc .child = .exit)
    (hothers : ∀ u, Inside u (s.loc u) → u = t) :
    ∃ s', Step (code rounds steps) s s' ∧ s' ≠ s := by
  have hkind : Kind (s.loc t) (s.next (code rounds steps) t) := kind_code ..
  have hcode : Discipline (code rounds steps) Inside := discipline
  have hresp := hcode.respects s t
  have hlock : ∀ l, s.next (code rounds steps) t = .lock l → s.owner = none := by
    intro l hnext
    rw [hnext] at hresp
    refine Option.eq_none_iff_forall_ne_some.mpr fun u hu => ?_
    have hin := ((howned.owner u).mp hu).2
    rw [hothers u hin] at hin
    exact hresp.1 hin
  have hcreate' : ∀ u l, s.next (code rounds steps) t = .create u l → s.status u = .fresh := by
    intro u l hnext
    rw [hnext] at hkind
    obtain ⟨hl, rfl⟩ := hkind
    exact hcreate hl
  have hjoin' : ∀ u l, s.next (code rounds steps) t = .join u l →
      s.status u = .running ∧ s.next (code rounds steps) u = .exit := by
    intro u l hnext
    rw [hnext] at hkind
    obtain ⟨hl, rfl⟩ := hkind
    obtain ⟨hchild, hchild_exit⟩ := hjoin hl
    refine ⟨hchild, ?_⟩
    show code rounds steps .child (s.loc .child) s.data = .exit
    rw [hchild_exit]
    rfl
  have hexit' : s.next (code rounds steps) t ≠ .exit := by
    intro hnext
    rw [hnext] at hkind
    exact hexit hkind
  obtain ⟨s', l, hstep, hleads, hloc⟩ :=
    hcode.exists_step howned hrun hlock hcreate' hjoin' hexit' (h.not_fail hrun)
  refine ⟨s', hstep, fun hs => ?_⟩
  -- the thread is somewhere else then: it has fewer moves left
  have hl : l = s.loc t := by
    have hself : s'.loc t = l := by rw [hloc, update_self]
    rw [← hself, hs]
  rcases (move_of_leads hleads).left (h.ok t) with ⟨hl', hstart, -⟩ | hleft
  · rw [hawait hl'] at hstart
    cases hstart
  · rw [hl] at hleft
    omega

def Finished (s : State Thread Loc Data) : Prop := s.loc .main = .exit ∧ s.loc .child = .exit

/-- Unless both threads are at their ends, one of them goes on. -/
theorem Inv.progress (h : Inv rounds steps s) (howned : Owned Inside s) :
    Finished s ∨ ∃ s', Step (code rounds steps) s s' ∧ s' ≠ s := by
  have hstatus := h.child_status
  by_cases hearly : Early (s.loc .main)
  · -- the test has not created the thread yet
    right
    rw [if_pos hearly] at hstatus
    have hbegin := h.fresh_begin hearly
    refine h.can_step howned h.main_running ?_ ?_ (fun _ => hstatus) ?_ ?_
    · rcases hearly with hl | hl <;> rw [hl] <;> simp
    · rcases hearly with hl | hl <;> rw [hl] <;> simp
    · rcases hearly with hl | hl <;> rw [hl] <;> simp
    · intro u hu
      cases u with
      | main => rfl
      | child =>
        rw [hbegin] at hu
        exact hu.elim
  · rw [if_neg hearly] at hstatus
    have hnot_create : s.loc .main ≠ .create := fun hl => hearly (Or.inr hl)
    have hworker := h.child_loc
    by_cases hexit : s.loc .child = .exit
    · -- the thread is done
      by_cases hmain : s.loc .main = .exit
      · exact Or.inl ⟨hmain, hexit⟩
      · right
        refine h.can_step howned h.main_running hmain (fun _ => ?_) (fun hl => absurd hl hnot_create)
          (fun _ => ⟨hstatus, hexit⟩) fun u hu => ?_
        · rw [h.start, hexit]
          simp
        · cases u with
          | main => rfl
          | child =>
            rw [hexit] at hu
            exact hu.elim
    · right
      by_cases hinside : Inside .main (s.loc .main)
      · -- the test is inside the lock, and the thread is not
        refine h.can_step howned h.main_running ?_ ?_ ?_ ?_ fun u hu => ?_
        · intro hl
          rw [hl] at hinside
          exact hinside
        · intro hl
          rw [hl] at hinside
          exact hinside.elim
        · exact fun hl => absurd hl hnot_create
        · intro hl
          rw [hl] at hinside
          exact hinside.elim
        · exact howned.mutual_exclusion ⟨h.running_of_inside howned hu, hu⟩
            ⟨h.main_running, hinside⟩
      · refine h.can_step howned hstatus hexit ?_ ?_ ?_ fun u hu => ?_
        · intro hl
          rw [hl] at hworker
          exact hworker.elim
        · intro hl
          rw [hl] at hworker
          exact hworker.elim
        · intro hl
          rw [hl] at hworker
          exact hworker.elim
        · cases u with
          | main => exact absurd hu hinside
          | child => rfl

/-- The moves that both threads have left. -/
def remaining (rounds steps : ℕ) (s : State Thread Loc Data) : ℕ :=
  left rounds steps .main (s.loc .main) + left rounds steps .child (s.loc .child)

/-- A step is idle, or there are fewer moves left after it. -/
theorem Inv.step_left (h : Inv rounds steps s) (hstep : Step (code rounds steps) s s')
    (hne : s' ≠ s) : remaining rounds steps s' + 1 ≤ remaining rounds steps s := by
  obtain ⟨t, l, hrun, hmove, hloc, hstatus, -, howner⟩ := h.step_cases hstep
  rcases hmove.left (h.ok t) with ⟨hl, -, hsame, hdata⟩ | hleft
  · -- the loop that awaits `start`: nothing has changed
    have hself : update s.loc t l = s.loc := by rw [hsame, update_eq_self]
    rw [hself] at hloc
    rw [if_neg (by rw [hl]; simp)] at hstatus
    have hown := howner hl
    obtain ⟨loc, status, owner, data⟩ := s'
    subst hloc hstatus hown hdata
    exact absurd rfl hne
  · rw [remaining, remaining, hloc]
    cases t with
    | main =>
      rw [update_self, update_of_ne (by simp), hleft]
      omega
    | child =>
      rw [update_self, update_of_ne (by simp), hleft]
      omega

/-! ### All runs -/

/-- In every order of steps: only one thread is inside the lock; no assertion fails; when the test
compares the number, and after that, it is `2 * rounds * steps`; and the lock is free when it is
destroyed. -/
theorem basicMutex_exact {lockInit : Bool}
    (h : Reachable (code rounds steps) (start lockInit) s) :
    (∀ t u, Inside t (s.loc t) → Inside u (s.loc u) → t = u) ∧
      (∀ t, s.status t = .running → s.next (code rounds steps) t ≠ .fail) ∧
      (Joined (s.loc .main) → s.data.num = UInt64.ofNat (2 * rounds * steps)) ∧
      (s.loc .main = .destroy → s.owner = none) := by
  obtain ⟨howned, hinv⟩ := inv_of_reachable h
  -- exclusion, asserts and count are read off the invariant; the last part asks who could still own
  refine ⟨fun t u ht hu => ?_, fun t => hinv.not_fail, fun hj => ?_, fun hl => ?_⟩
  · exact howned.mutual_exclusion ⟨hinv.running_of_inside howned ht, ht⟩
      ⟨hinv.running_of_inside howned hu, hu⟩
  · have hnum := hinv.num
    rw [hinv.joined hj] at hnum
    have hmain : counted rounds steps (s.loc .main) = rounds * steps := by
      cases hl : s.loc .main with
      | check => rfl
      | destroy => rfl
      | exit => rfl
      | _ =>
        rw [hl] at hj
        exact hj.elim
    rw [hnum, hmain, Nat.mul_assoc, Nat.two_mul]
    rfl
  · have hexit := hinv.joined (by rw [hl]; trivial)
    refine Option.eq_none_iff_forall_ne_some.mpr fun u hu => ?_
    have hin := ((howned.owner u).mp hu).2
    cases u with
    | main =>
      rw [hl] at hin
      exact hin
    | child =>
      rw [hexit] at hin
      exact hin

/-- Two rounds of one step each: the threads take turns, the thread ends, and the test joins it. -/
def turns : List Thread :=
  -- `bt_mutex_init`, the thread is created, it sets `start`, and the test sees that
  [.main, .main, .child, .main,
    .main, .main, .main, .main, .child, .child, .child, .child,
    .main, .main, .main, .main, .child, .child, .child, .child,
    .child, .main, .main, .main]

theorem exists_destroy :
    ∃ s, Run (code 2 1) (start false) turns.length 0 s ∧ s.loc .main = .destroy := by
  have hplay : ((start false).play (code 2 1) [.main, .child] turns).map (fun s => s.loc .main)
      = some .destroy := by decide +kernel
  obtain ⟨s, hs, hloc⟩ := Option.map_eq_some_iff.mp hplay
  exact ⟨s, Nat.zero_add turns.length ▸ Run.start.play mem_threads hs, hloc⟩

theorem basicMutex_exact_destroy :
    ∃ s, Run (code 2 1) (start false) turns.length 0 s ∧ s.loc .main = .destroy ∧
      (∀ t u, Inside t (s.loc t) → Inside u (s.loc u) → t = u) ∧
      (∀ t, s.status t = .running → s.next (code 2 1) t ≠ .fail) ∧
      s.data.num = UInt64.ofNat (2 * 2 * 1) ∧ s.owner = none := by
  obtain ⟨s, hrun, hloc⟩ := exists_destroy
  obtain ⟨hmutex, hfail, hnum, hfree⟩ := basicMutex_exact hrun.reachable
  exact ⟨s, hrun, hloc, hmutex, hfail, hnum (by rw [hloc]; trivial), hfree hloc⟩

/-- No order of steps gets stuck before both threads are done, and none goes on for ever: a run has
at most `4 * rounds * (steps + 1) + 9` steps besides the idle ones of `while (!data.start)`. -/
theorem basicMutex_terminates {lockInit : Bool} {k w : ℕ}
    (h : Run (code rounds steps) (start lockInit) k w s) :
    (Finished s ∨ ∃ s', Step (code rounds steps) s s' ∧ s' ≠ s) ∧
      k ≤ 4 * rounds * (steps + 1) + 9 := by
  obtain ⟨howned, hinv⟩ := inv_of_reachable h.reachable
  refine ⟨hinv.progress howned, ?_⟩
  -- nobody waits for a condition, so there is nobody to wake
  have hwake : ∀ s s' : State Thread Loc Data, Inv rounds steps s → Spurious s s' →
      remaining rounds steps s' ≤ remaining rounds steps s + 0 := by
    rintro s s' hs ⟨hwaiting⟩
    exact absurd hwaiting (hs.awake _).2
  have hle := h.length_le (fun s hs => (inv_of_reachable hs).2)
    (fun s s' hs hstep hne => hs.step_left hstep hne) hwake
  have hstart : remaining rounds steps (start lockInit) = 4 * rounds * (steps + 1) + 9 := by
    simp only [remaining, start, left, left.behind]
    ring
  omega

theorem basicMutex_terminates_destroy :
    ∃ s, Run (code 2 1) (start false) turns.length 0 s ∧ s.loc .main = .destroy ∧
      (Finished s ∨ ∃ s', Step (code 2 1) s s' ∧ s' ≠ s) ∧ turns.length ≤ 4 * 2 * (1 + 1) + 9 := by
  obtain ⟨s, hrun, hloc⟩ := exists_destroy
  exact ⟨s, hrun, hloc, basicMutex_terminates hrun⟩

end Bluetea.Mutex.BasicMutex
