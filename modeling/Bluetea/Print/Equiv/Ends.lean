import Bluetea.Print.Basic
import Mathlib.Algebra.BigOperators.Ring.Finset

/-!
# Printing ends

`get_time_mt` is only taken with `pr_print` held, and both are given back in time (`discipline`), so no
order of steps leads to a deadlock.  A lock is tried a bounded number of times, so every run ends
(`print_ends`).
-/

namespace Bluetea.Print

variable {ι τ σ : Type*} (libc : Libc τ σ)

/-! ### The discipline -/

/-- The locks that are held at a point of a call. -/
def Pc.Holds : Pc τ → Mutex → Prop
  | busyLock .prPrint _, _ | mutexLock .prPrint, _ => False
  | time, _ | localtime _, _ | asctime, _ | memcpy, _ | unlockTime _, _ => True
  | _, m => m = .prPrint

def Loc.Holds : Loc τ → Mutex → Prop
  | idle _, _ => False
  | call pc _ _, m => pc.Holds m

/-- Whoever has a lock has `pr_print`. -/
theorem Loc.Holds.prPrint {l : Loc τ} {m : Mutex} (h : l.Holds m) : l.Holds .prPrint := by
  cases l with
  | idle todo => exact h
  | call pc c todo =>
    cases pc with
    | busyLock m' n =>
      cases m' with
      | prPrint => exact h
      | getTimeMt => rfl
    | mutexLock m' =>
      cases m' with
      | prPrint => exact h
      | getTimeMt => rfl
    | _ => simp [Loc.Holds, Pc.Holds]

/-- `pr_print` is taken first. -/
def rank : Mutex → ℕ
  | .prPrint => 0
  | .getTimeMt => 1

/-- With a lock, the thread holds one more. -/
theorem acquired_holds (m m' : Mutex) (pc : Pc τ) (hpc : pc = .mutexLock m ∨ ∃ n, pc = .busyLock m n) :
    (acquired m : Pc τ).Holds m' ↔ m' = m ∨ pc.Holds m' := by
  cases m <;> cases m' <;> rcases hpc with rfl | ⟨n, rfl⟩ <;> simp [acquired, Pc.Holds]

theorem retry_holds (m m' : Mutex) (n : ℕ) :
    (retry m n : Pc τ).Holds m' ↔ (.busyLock m n : Pc τ).Holds m' := by
  cases n <;> cases m <;> exact Iff.rfl

theorem discipline : Locks.Discipline (code libc) Loc.Holds := by
  intro l d
  cases l with
  | idle todo =>
    cases todo with
    | nil => exact fun m => id
    | cons c todo => exact fun m => Iff.rfl
  | call pc c todo =>
    cases pc with
    | busyLock m n =>
      exact ⟨fun m' => acquired_holds m m' _ (Or.inr ⟨n, rfl⟩), fun m' => retry_holds m m' n⟩
    | mutexLock m => exact fun m' => acquired_holds m m' _ (Or.inl rfl)
    | unlockTime buf => exact ⟨trivial, by rintro (_ | _) <;> simp [Loc.Holds, Pc.Holds]⟩
    | unlockPrint => exact ⟨rfl, by rintro (_ | _) <;> simp [Loc.Holds, Pc.Holds]⟩
    | time => exact fun m => Iff.rfl
    | localtime rawtime => exact fun m => Iff.rfl
    | asctime => exact fun m => Iff.rfl
    | memcpy => exact fun m => Iff.rfl
    | printf buf => exact fun m => Iff.rfl
    | vprintf buf => exact fun m => Iff.rfl
    | putchar buf => exact fun m => Iff.rfl

/-- Where a thread waits. -/
theorem code_eq_lock {l l' : Loc τ} {d : Data σ} {m : Mutex} (h : code libc l d = .lock m l') :
    ∃ c todo, l = .call (.mutexLock m) c todo := by
  unfold code at h
  split at h <;> cases h
  exact ⟨_, _, rfl⟩

theorem ordered : Locks.Ordered (code libc) Loc.Holds rank := by
  intro l d m l' hlock m' hholds
  obtain ⟨c, todo, rfl⟩ := code_eq_lock libc hlock
  cases m with
  | prPrint => exact hholds.elim
  | getTimeMt =>
    obtain rfl : m' = .prPrint := hholds
    exact Nat.zero_lt_one

/-! ### The measure -/

/-- The steps to the end of a call, at most. -/
def Pc.toGo : Pc τ → ℕ
  | unlockPrint => 1
  | putchar _ => 2
  | vprintf _ => 3
  | printf _ => 4
  | unlockTime _ => 5
  | memcpy => 6
  | asctime => 7
  | localtime _ => 8
  | time => 9
  | mutexLock .getTimeMt => 10
  | busyLock .getTimeMt n => n + 11
  | mutexLock .prPrint => busyTries + 12
  | busyLock .prPrint n => n + (busyTries + 13)

/-- The steps of a call, at most. -/
def callSteps : ℕ := 2 * busyTries + 14

def Loc.toGo : Loc τ → ℕ
  | idle todo => callSteps * todo.length
  | call pc _ todo => pc.toGo + callSteps * todo.length

theorem acquired_toGo_lt (m : Mutex) (pc : Pc τ)
    (hpc : pc = .mutexLock m ∨ ∃ n, pc = .busyLock m n) : (acquired m : Pc τ).toGo < pc.toGo := by
  rcases hpc with rfl | ⟨n, rfl⟩
  · cases m <;> simp only [acquired, Pc.toGo] <;> omega
  · cases m <;> simp only [acquired, Pc.toGo] <;> omega

theorem retry_toGo_lt (m : Mutex) (n : ℕ) : (retry m n : Pc τ).toGo < (.busyLock m n : Pc τ).toGo := by
  cases n <;> cases m <;> simp only [retry, Pc.toGo] <;> omega

theorem toGo_lt (l : Loc τ) (d : Data σ) : ∀ l' ∈ (code libc l d).targets, l'.toGo < l.toGo := by
  have hcall : ∀ (pc pc' : Pc τ) (c : Call) (todo : List Call), pc'.toGo < pc.toGo →
      (Loc.call pc' c todo).toGo < (Loc.call pc c todo).toGo :=
    fun pc pc' c todo h => Nat.add_lt_add_right h _
  intro l' hl'
  cases l with
  | idle todo =>
    cases todo with
    | nil => exact absurd hl' List.not_mem_nil
    | cons c todo =>
      obtain rfl := List.mem_singleton.mp hl'
      simp only [Loc.toGo, Pc.toGo, List.length_cons, Nat.mul_succ]
      simp only [callSteps]
      omega
  | call pc c todo =>
    cases pc with
    | busyLock m n =>
      rcases List.mem_cons.mp hl' with rfl | hl'
      · exact hcall _ _ c todo (acquired_toGo_lt m _ (Or.inr ⟨n, rfl⟩))
      · obtain rfl := List.mem_singleton.mp hl'
        exact hcall _ _ c todo (retry_toGo_lt m n)
    | mutexLock m =>
      obtain rfl := List.mem_singleton.mp hl'
      exact hcall _ _ c todo (acquired_toGo_lt m _ (Or.inl rfl))
    | unlockPrint =>
      obtain rfl := List.mem_singleton.mp hl'
      simp only [Loc.toGo, Pc.toGo]
      omega
    | _ =>
      -- the next point of the call
      obtain rfl := List.mem_singleton.mp hl'
      apply hcall
      simp only [Pc.toGo]
      omega

/-! ### Runs -/

variable {libc} [DecidableEq ι] {calls : ι → List Call} {timeinfo : σ} {timeChr : TimeChr}
  {s : Locks.State ι Mutex (Loc τ) (Data σ)}

omit [DecidableEq ι] in
theorem start_owned : Locks.Owned Loc.Holds
    (start calls timeinfo timeChr : Locks.State ι Mutex (Loc τ) (Data σ)) :=
  fun _ _ => iff_of_false (Option.some_ne_none _).symm id

theorem owned_of_reachable
    (h : Locks.Reachable (code libc) (start calls timeinfo timeChr) s) : Locks.Owned Loc.Holds s :=
  (discipline libc).owned start_owned h

omit [DecidableEq ι] in
/-- A thread that has come to its end has made all its calls. -/
theorem next_eq_exit {t : ι} (h : s.next (code libc) t = .exit) : s.loc t = .idle [] := by
  unfold Locks.State.next code at h
  split at h <;> first | assumption | cases h

/-- Where nothing goes on, no lock having been lost, a thread has come to its end. -/
theorem loc_of_last (h : Locks.Owned Loc.Holds s) (hlast : ∀ s', ¬Locks.Step (code libc) s s')
    (t : ι) : s.loc t = .idle [] := by
  by_contra hne
  have hnext : s.next (code libc) t ≠ .exit := fun hexit => hne (next_eq_exit hexit)
  have hrank : ∀ m, rank m < 2 := by
    intro m
    cases m <;> decide
  obtain ⟨s', hstep⟩ := (discipline libc).exists_step (ordered libc) hrank h hnext
  exact hlast s' hstep

omit [DecidableEq ι] in
/-- Whoever has `get_time_mt` has `pr_print`, so it is free when the one that has `pr_print` tries it. -/
theorem getTimeMt_free (h : Locks.Owned Loc.Holds s) {t : ι} {n : ℕ} {c : Call} {todo : List Call}
    (hloc : s.loc t = .call (.busyLock .getTimeMt n) c todo) : s.owner .getTimeMt = none := by
  by_contra hown
  obtain ⟨u, hu⟩ := Option.ne_none_iff_exists'.mp hown
  rw [h] at hu
  have htry : (s.loc t).Holds .prPrint := by
    rw [hloc]
    exact rfl
  obtain rfl := h.mutual_exclusion hu.prPrint htry
  rw [hloc] at hu
  cases hu

/-- **Printing ends**: a run takes a bounded number of steps, and where nothing goes on all threads have
made all their calls.  `get_time_mt` is free whenever it is tried. -/
theorem print_ends [Fintype ι] :
    (∀ k s, Machine.StepsOf (Locks.Step (code libc)) (start calls timeinfo timeChr) k s →
      k ≤ callSteps * ∑ t, (calls t).length) ∧
    ∀ s, Locks.Reachable (code libc) (start calls timeinfo timeChr) s →
      ((∀ s', ¬ Locks.Step (code libc) s s') → ∀ t, s.loc t = .idle []) ∧
      ∀ t n c todo, s.loc t = .call (.busyLock .getTimeMt n) c todo → s.owner .getTimeMt = none := by
  constructor
  · -- every step leaves its thread less to do
    intro k s h
    have hle := Locks.add_sum_le (toGo_lt libc) h
    have hsum : ∑ t, ((start calls timeinfo timeChr :
        Locks.State ι Mutex (Loc τ) (Data σ)).loc t).toGo = callSteps * ∑ t, (calls t).length :=
      (Finset.mul_sum ..).symm
    omega
  · intro s h
    have howned := owned_of_reachable h
    exact ⟨loc_of_last howned, fun t n c todo => getTimeMt_free howned⟩

end Bluetea.Print
