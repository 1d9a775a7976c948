import Mathlib.Data.Nat.Notation
import Mathlib.Logic.Function.Basic
import Mathlib.Logic.Relation

/-!
# Threads, a lock and a condition

Threads share data, one lock and one condition, as POSIX has them: the lock is not recursive, a wait
gives the lock back and takes it again, a signal wakes one of the threads that wait, and a thread may
also wake for no reason.  A thread is at a location; `code t l d` is what it does there when the data
are `d`.  An access to the data is one step.

A discipline says at which locations a thread holds the lock.  Where the code keeps it, the lock
belongs to the one thread that is at such a location (`Discipline.step`, `Owned.mutual_exclusion`).

`Run k w` counts the steps that change something and the wakings for no reason.  Where every such
step makes a measure smaller and a waking makes it at most `c` larger, a run has at most as many steps
as the measure says (`Run.length_le`).

The relation says what may happen; `State.play` computes what does happen when the threads take their
steps in a given order, and all of it may (`Run.play`).
-/

namespace Monitor

open Function

variable {ι L δ : Type*}

/-- What a thread does next. -/
inductive Instr (ι L δ : Type*)
  /-- One access to the data, and a jump. -/
  | go (d : δ) (l : L)
  | lock (l : L)
  | unlock (l : L)
  | wait (l : L)
  | signal (l : L)
  | create (t : ι) (l : L)
  | join (t : ι) (l : L)
  | exit
  /-- An assertion fails. -/
  | fail

/-- A thread that waits goes on, with the lock, once it is woken. -/
inductive Status
  | fresh
  | running
  | waiting
  | woken
  deriving DecidableEq, Repr

structure State (ι L δ : Type*) where
  loc : ι → L
  status : ι → Status
  owner : Option ι
  data : δ

variable [DecidableEq ι]

/-- Thread `t` jumps. -/
def State.jump (s : State ι L δ) (t : ι) (l : L) : State ι L δ :=
  { s with loc := update s.loc t l }

def State.setStatus (s : State ι L δ) (t : ι) (x : Status) : State ι L δ :=
  { s with status := update s.status t x }

section Lemmas

variable (s : State ι L δ) (t : ι) (l : L) (x : Status)

@[simp] theorem jump_loc : (s.jump t l).loc = update s.loc t l := rfl
@[simp] theorem jump_status : (s.jump t l).status = s.status := rfl
@[simp] theorem jump_owner : (s.jump t l).owner = s.owner := rfl
@[simp] theorem jump_data : (s.jump t l).data = s.data := rfl
@[simp] theorem setStatus_loc : (s.setStatus t x).loc = s.loc := rfl
@[simp] theorem setStatus_status : (s.setStatus t x).status = update s.status t x := rfl
@[simp] theorem setStatus_owner : (s.setStatus t x).owner = s.owner := rfl
@[simp] theorem setStatus_data : (s.setStatus t x).data = s.data := rfl

end Lemmas

variable (code : ι → L → δ → Instr ι L δ)

/-- What thread `t` does next. -/
def State.next (s : State ι L δ) (t : ι) : Instr ι L δ := code t (s.loc t) s.data

/-- A step of a thread. -/
inductive Step (s : State ι L δ) : State ι L δ → Prop
  | go {t d l} (hrun : s.status t = .running) (hnext : s.next code t = .go d l) :
      Step s { s.jump t l with data := d }
  | lock {t l} (hrun : s.status t = .running) (hnext : s.next code t = .lock l)
      (hfree : s.owner = none) : Step s { s.jump t l with owner := some t }
  | unlock {t l} (hrun : s.status t = .running) (hnext : s.next code t = .unlock l)
      (hown : s.owner = some t) : Step s { s.jump t l with owner := none }
  | wait {t l} (hrun : s.status t = .running) (hnext : s.next code t = .wait l)
      (hown : s.owner = some t) :
      Step s { (s.jump t l).setStatus t .waiting with owner := none }
  | resume {t} (hwoken : s.status t = .woken) (hfree : s.owner = none) :
      Step s { s.setStatus t .running with owner := some t }
  | signal {t u l} (hrun : s.status t = .running) (hnext : s.next code t = .signal l)
      (hwaiting : s.status u = .waiting) : Step s ((s.jump t l).setStatus u .woken)
  | signalNone {t l} (hrun : s.status t = .running) (hnext : s.next code t = .signal l)
      (hnone : ∀ u, s.status u ≠ .waiting) : Step s (s.jump t l)
  | create {t u l} (hrun : s.status t = .running) (hnext : s.next code t = .create u l)
      (hfresh : s.status u = .fresh) : Step s ((s.jump t l).setStatus u .running)
  | join {t u l} (hrun : s.status t = .running) (hnext : s.next code t = .join u l)
      (hexit : s.status u = .running ∧ s.next code u = .exit) : Step s (s.jump t l)

/-- A thread wakes for no reason. -/
inductive Spurious (s : State ι L δ) : State ι L δ → Prop
  | wake {t} (hwaiting : s.status t = .waiting) : Spurious s (s.setStatus t .woken)

/-- The states that any order of steps may lead to. -/
def Reachable (s₀ : State ι L δ) : State ι L δ → Prop :=
  Relation.ReflTransGen (fun s s' => Step code s s' ∨ Spurious s s') s₀

/-- Runs, with the number of steps that change something and of wakings for no reason. -/
inductive Run (s₀ : State ι L δ) : ℕ → ℕ → State ι L δ → Prop
  | start : Run s₀ 0 0 s₀
  | step {k w s s'} (h : Run s₀ k w s) (hstep : Step code s s') (hne : s' ≠ s) :
      Run s₀ (k + 1) w s'
  | idle {k w s} (h : Run s₀ k w s) (hstep : Step code s s) : Run s₀ k w s
  | wake {k w s s'} (h : Run s₀ k w s) (hwake : Spurious s s') : Run s₀ k (w + 1) s'

variable {code} {s₀ s s' : State ι L δ} {t u : ι} {l : L} {d : δ}

/-! ### Runs -/

theorem Run.reachable {k w : ℕ} (h : Run code s₀ k w s) : Reachable code s₀ s := by
  induction h with
  | start => exact .refl
  | step _ hstep _ ih => exact ih.tail (Or.inl hstep)
  | idle _ _ ih => exact ih
  | wake _ hwake ih => exact ih.tail (Or.inr hwake)

/-- **The invariant rule.** -/
theorem Reachable.invariant {Inv : State ι L δ → Prop} (h : Reachable code s₀ s) (h₀ : Inv s₀)
    (hstep : ∀ s s', Inv s → Step code s s' → Inv s')
    (hwake : ∀ s s', Inv s → Spurious s s' → Inv s') : Inv s := by
  induction h with
  | refl => exact h₀
  | tail _ hs ih =>
    rcases hs with hs | hs
    · exact hstep _ _ ih hs
    · exact hwake _ _ ih hs

/-- **The measure rule.** -/
theorem Run.length_le {Inv : State ι L δ → Prop} {μ : State ι L δ → ℕ} {c k w : ℕ}
    (h : Run code s₀ k w s) (hinv : ∀ s, Reachable code s₀ s → Inv s)
    (hstep : ∀ s s', Inv s → Step code s s' → s' ≠ s → μ s' + 1 ≤ μ s)
    (hwake : ∀ s s', Inv s → Spurious s s' → μ s' ≤ μ s + c) : k + μ s ≤ μ s₀ + c * w := by
  induction h with
  | start => simp
  | step h hs hne ih =>
    have hle := hstep _ _ (hinv _ h.reachable) hs hne
    omega
  | idle _ _ ih => exact ih
  | wake h hs ih =>
    have hle := hwake _ _ (hinv _ h.reachable) hs
    rw [Nat.mul_succ]
    omega

/-- Where an instruction leads from the data `d`, and the data then. -/
def Instr.Leads (d : δ) : Instr ι L δ → L → δ → Prop
  | .go d₁ l₁, l, d' => l = l₁ ∧ d' = d₁
  | .lock l₁, l, d' | .unlock l₁, l, d' | .wait l₁, l, d' | .signal l₁, l, d' | .create _ l₁, l, d'
  | .join _ l₁, l, d' => l = l₁ ∧ d' = d
  | .exit, _, _ | .fail, _, _ => False

/-! ### The discipline -/

/-- Which jumps are allowed, when `H` are the locations at which a thread holds the lock. -/
def Instr.Respects (H : L → Prop) (l : L) : Instr ι L δ → Prop
  | .go _ l' | .signal l' | .create _ l' | .join _ l' => H l' ↔ H l
  | .lock l' => ¬H l ∧ H l'
  | .unlock l' => H l ∧ ¬H l'
  | .wait l' => H l ∧ H l'
  | .exit => ¬H l
  | .fail => True

/-- Every thread takes the lock where it does not hold it and gives it back where it does. -/
def Discipline (code : ι → L → δ → Instr ι L δ) (H : ι → L → Prop) : Prop :=
  ∀ t l d, (code t l d).Respects (H t) l

/-- The lock belongs to the thread that is where the discipline says. -/
structure Owned (H : ι → L → Prop) (s : State ι L δ) : Prop where
  owner : ∀ t, s.owner = some t ↔ s.status t = .running ∧ H t (s.loc t)
  asleep : ∀ t, s.status t = .waiting ∨ s.status t = .woken → H t (s.loc t)
  fresh : ∀ t, s.status t = .fresh → ¬H t (s.loc t)

variable {H : ι → L → Prop}

omit [DecidableEq ι] in
/-- The new location of a thread that goes on is allowed. -/
theorem Discipline.respects (h : Discipline code H) (s : State ι L δ) (t : ι) :
    (s.next code t).Respects (H t) (s.loc t) := h t _ _

omit [DecidableEq ι] in
/-- Only thread `t` is looked at again when the others are as they were. -/
theorem Owned.of_thread (h : Owned H s) (t : ι)
    (hstatus : ∀ v, v ≠ t → s'.status v = s.status v) (hloc : ∀ v, v ≠ t → s'.loc v = s.loc v)
    (howner : ∀ v, v ≠ t → (s'.owner = some v ↔ s.owner = some v))
    (hself : s'.owner = some t ↔ s'.status t = .running ∧ H t (s'.loc t))
    (hasleep : s'.status t = .waiting ∨ s'.status t = .woken → H t (s'.loc t))
    (hfresh : s'.status t = .fresh → ¬H t (s'.loc t)) : Owned H s' := by
  constructor
  · intro v
    by_cases hv : v = t
    · rw [hv]
      exact hself
    · rw [hstatus v hv, hloc v hv, howner v hv]
      exact h.owner v
  · intro v
    by_cases hv : v = t
    · rw [hv]
      exact hasleep
    · rw [hstatus v hv, hloc v hv]
      exact h.asleep v
  · intro v
    by_cases hv : v = t
    · rw [hv]
      exact hfresh
    · rw [hstatus v hv, hloc v hv]
      exact h.fresh v

/-- A thread jumps with the lock, or without. -/
theorem Owned.jump_of_iff (h : Owned H s) (hl : H t l ↔ H t (s.loc t)) : Owned H (s.jump t l) := by
  have hloc : (s.jump t l).loc t = l := update_self ..
  refine h.of_thread t (fun _ _ => rfl) (fun v hv => update_of_ne hv ..) (fun _ _ => Iff.rfl) ?_ ?_ ?_
  · rw [hloc, hl]
    exact h.owner t
  · rw [hloc, hl]
    exact h.asleep t
  · rw [hloc, hl]
    exact h.fresh t

/-- A thread is woken, or created. -/
theorem Owned.setStatus {x : Status} (h : Owned H s) (hu : s.status u ≠ .running)
    (hx : x = .woken ∧ H u (s.loc u) ∨ x = .running ∧ ¬H u (s.loc u)) :
    Owned H (s.setStatus u x) := by
  have hstatus : (s.setStatus u x).status u = x := update_self ..
  have hno : ¬s.owner = some u := fun ho => hu ((h.owner u).mp ho).1
  refine h.of_thread u (fun v hv => update_of_ne hv ..) (fun _ _ => rfl) (fun _ _ => Iff.rfl) ?_ ?_ ?_
  · rw [hstatus]
    rcases hx with ⟨rfl, -⟩ | ⟨-, hx⟩
    · simp [hno]
    · exact ⟨fun ho => absurd ho hno, fun hH => absurd hH.2 hx⟩
  · rw [hstatus]
    rcases hx with ⟨-, hx⟩ | ⟨rfl, -⟩
    · exact fun _ => hx
    · simp
  · rw [hstatus]
    rcases hx with ⟨rfl, -⟩ | ⟨rfl, -⟩ <;> simp

/-- Thread `t` takes the free lock, and runs on at `l`. -/
theorem Owned.take (h : Owned H s) (hfree : s.owner = none) (hl : H t l) :
    Owned H { (s.jump t l).setStatus t .running with owner := some t } := by
  refine h.of_thread t (fun v hv => update_of_ne hv ..) (fun v hv => update_of_ne hv ..) ?_ ?_ ?_ ?_
  · intro v hv
    rw [hfree]
    simp [hv.symm]
  · simp [hl]
  · simp
  · simp

/-- Thread `t` gives the lock back. -/
theorem Owned.release {x : Status} (h : Owned H s) (hown : s.owner = some t)
    (hx : x = .running ∧ ¬H t l ∨ x = .waiting ∧ H t l) :
    Owned H { (s.jump t l).setStatus t x with owner := none } := by
  refine h.of_thread t (fun v hv => update_of_ne hv ..) (fun v hv => update_of_ne hv ..) ?_ ?_ ?_ ?_
  · intro v hv
    rw [hown]
    simp [hv.symm]
  · rcases hx with ⟨rfl, hx⟩ | ⟨rfl, -⟩
    · simp [hx]
    · simp
  · rcases hx with ⟨rfl, -⟩ | ⟨-, hx⟩
    · simp
    · simp [hx]
  · rcases hx with ⟨rfl, -⟩ | ⟨rfl, -⟩ <;> simp

theorem setStatus_self (s : State ι L δ) (t : ι) : s.setStatus t (s.status t) = s := by
  simp [State.setStatus]

theorem jump_self (s : State ι L δ) (t : ι) : s.jump t (s.loc t) = s := by
  simp [State.jump]

/-- What one step keeps. -/
theorem Discipline.step (hcode : Discipline code H) (h : Owned H s) (hstep : Step code s s') :
    Owned H s' := by
  have hresp := hcode.respects s
  cases hstep with
  | @go t d l hrun hnext =>
    have hl := hresp t
    rw [hnext] at hl
    have hjump := h.jump_of_iff hl
    exact ⟨hjump.owner, hjump.asleep, hjump.fresh⟩
  | @lock t l hrun hnext hfree =>
    have hl := hresp t
    rw [hnext] at hl
    have htake := h.take hfree hl.2
    -- the thread was running, so only the owner and the location have changed
    rw [← hrun, ← jump_status s t l, setStatus_self] at htake
    exact htake
  | @unlock t l hrun hnext hown =>
    have hl := hresp t
    rw [hnext] at hl
    have hrel := h.release hown (Or.inl ⟨hrun, hl.2⟩)
    rw [← jump_status s t l, setStatus_self] at hrel
    exact hrel
  | @wait t l hrun hnext hown =>
    have hl := hresp t
    rw [hnext] at hl
    exact h.release hown (Or.inr ⟨rfl, hl.2⟩)
  | @resume t hwoken hfree =>
    have htake := h.take hfree (h.asleep t (Or.inr hwoken))
    rw [jump_self] at htake
    exact htake
  | @signal t u l hrun hnext hwaiting =>
    have hl := hresp t
    rw [hnext] at hl
    have hjump := h.jump_of_iff hl
    have hu : (s.jump t l).status u ≠ .running := by simp [hwaiting]
    exact hjump.setStatus hu (Or.inl ⟨rfl, hjump.asleep u (Or.inl hwaiting)⟩)
  | @signalNone t l hrun hnext hnone =>
    have hl := hresp t
    rw [hnext] at hl
    exact h.jump_of_iff hl
  | @create t u l hrun hnext hfresh =>
    have hl := hresp t
    rw [hnext] at hl
    have hjump := h.jump_of_iff hl
    have hu : (s.jump t l).status u ≠ .running := by simp [hfresh]
    exact hjump.setStatus hu (Or.inr ⟨rfl, hjump.fresh u hfresh⟩)
  | @join t u l hrun hnext hexit =>
    have hl := hresp t
    rw [hnext] at hl
    exact h.jump_of_iff hl

theorem Owned.wake (h : Owned H s) (hwake : Spurious s s') : Owned H s' := by
  cases hwake with
  | @wake t hwaiting =>
    have ht : s.status t ≠ .running := by simp [hwaiting]
    exact h.setStatus ht (Or.inl ⟨rfl, h.asleep t (Or.inl hwaiting)⟩)

omit [DecidableEq ι] in
/-- Only one thread is where the lock is held. -/
theorem Owned.mutual_exclusion (h : Owned H s) (ht : s.status t = .running ∧ H t (s.loc t))
    (hu : s.status u = .running ∧ H u (s.loc u)) : t = u := by
  rw [← h.owner] at ht hu
  exact Option.some.inj (ht.symm.trans hu)

/-- A running thread is stuck only at the lock, at a `create` or at a `join`. -/
theorem Discipline.exists_step (hcode : Discipline code H) (h : Owned H s)
    (hrun : s.status t = .running) (hlock : ∀ l, s.next code t = .lock l → s.owner = none)
    (hcreate : ∀ u l, s.next code t = .create u l → s.status u = .fresh)
    (hjoin : ∀ u l, s.next code t = .join u l → s.status u = .running ∧ s.next code u = .exit)
    (hexit : s.next code t ≠ .exit) (hfail : s.next code t ≠ .fail) :
    ∃ s' l, Step code s s' ∧ (s.next code t).Leads s.data l s'.data ∧
      s'.loc = update s.loc t l := by
  have hl := hcode.respects s t
  cases hnext : s.next code t with
  | go d l => exact ⟨_, l, .go hrun hnext, ⟨rfl, rfl⟩, rfl⟩
  | lock l => exact ⟨_, l, .lock hrun hnext (hlock l hnext), ⟨rfl, rfl⟩, rfl⟩
  | unlock l =>
    rw [hnext] at hl
    exact ⟨_, l, .unlock hrun hnext ((h.owner t).mpr ⟨hrun, hl.1⟩), ⟨rfl, rfl⟩, rfl⟩
  | wait l =>
    rw [hnext] at hl
    exact ⟨_, l, .wait hrun hnext ((h.owner t).mpr ⟨hrun, hl.1⟩), ⟨rfl, rfl⟩, rfl⟩
  -- a signal without a waiter is lost, and is a step as well
  | signal l =>
    by_cases hnone : ∀ u, s.status u ≠ .waiting
    · exact ⟨_, l, .signalNone hrun hnext hnone, ⟨rfl, rfl⟩, rfl⟩
    · obtain ⟨u, hu⟩ := not_forall_not.mp hnone
      exact ⟨_, l, .signal hrun hnext hu, ⟨rfl, rfl⟩, rfl⟩
  | create u l => exact ⟨_, l, .create hrun hnext (hcreate u l hnext), ⟨rfl, rfl⟩, rfl⟩
  | join u l => exact ⟨_, l, .join hrun hnext (hjoin u l hnext), ⟨rfl, rfl⟩, rfl⟩
  | exit => exact absurd hnext hexit
  | fail => exact absurd hnext hfail

/-! ### Schedules -/

section Play

variable [DecidableEq L]

/-- The next step of thread `t`, if it can take one; a signal goes to the first of the `threads` that
waits. -/
def State.advance (s : State ι L δ) (code : ι → L → δ → Instr ι L δ) (threads : List ι) (t : ι) :
    Option (State ι L δ) :=
  match s.status t with
  | .fresh | .waiting => none
  | .woken =>
    if s.owner = none then some { s.setStatus t .running with owner := some t } else none
  | .running =>
    match s.next code t with
    | .go d l => some { s.jump t l with data := d }
    | .lock l => if s.owner = none then some { s.jump t l with owner := some t } else none
    | .unlock l => if s.owner = some t then some { s.jump t l with owner := none } else none
    | .wait l =>
      if s.owner = some t then some { (s.jump t l).setStatus t .waiting with owner := none }
      else none
    | .signal l =>
      match threads.find? fun u => s.status u = .waiting with
      | some u => some ((s.jump t l).setStatus u .woken)
      | none => some (s.jump t l)
    | .create u l =>
      if s.status u = .fresh then some ((s.jump t l).setStatus u .running) else none
    | .join u l =>
      match s.status u, s.next code u with
      | .running, .exit => some (s.jump t l)
      | _, _ => none
    | .exit | .fail => none

/-- The threads take steps in this order; each has to get on. -/
def State.play (s : State ι L δ) (code : ι → L → δ → Instr ι L δ) (threads : List ι) :
    List ι → Option (State ι L δ)
  | [] => some s
  | t :: ts =>
    match s.advance code threads t with
    | none => none
    | some s' =>
      if s'.loc t = s.loc t ∧ s'.status t = s.status t then none else s'.play code threads ts

variable {threads ts : List ι}

omit [DecidableEq L] in
theorem Step.advance (hall : ∀ u, u ∈ threads) (h : s.advance code threads t = some s') :
    Step code s s' := by
  unfold State.advance at h
  cases hstatus : s.status t with
  | fresh | waiting =>
    rw [hstatus] at h
    cases h
  | woken =>
    rw [hstatus] at h
    obtain ⟨hfree, h⟩ := Option.ite_none_right_eq_some.mp h
    cases h
    exact .resume hstatus hfree
  | running =>
    rw [hstatus] at h
    dsimp only at h
    cases hnext : s.next code t with
    | go d l =>
      rw [hnext] at h
      cases h
      exact .go hstatus hnext
    | lock l =>
      rw [hnext] at h
      obtain ⟨hfree, h⟩ := Option.ite_none_right_eq_some.mp h
      cases h
      exact .lock hstatus hnext hfree
    | unlock l =>
      rw [hnext] at h
      obtain ⟨hown, h⟩ := Option.ite_none_right_eq_some.mp h
      cases h
      exact .unlock hstatus hnext hown
    | wait l =>
      rw [hnext] at h
      obtain ⟨hown, h⟩ := Option.ite_none_right_eq_some.mp h
      cases h
      exact .wait hstatus hnext hown
    | signal l =>
      rw [hnext] at h
      dsimp only at h
      cases hfind : threads.find? fun u => s.status u = .waiting with
      | none =>
        rw [hfind] at h
        cases h
        -- the list has all threads, so none of them waits
        refine .signalNone hstatus hnext fun u hu => ?_
        exact absurd (decide_eq_true hu) (List.find?_eq_none.mp hfind u (hall u))
      | some u =>
        rw [hfind] at h
        cases h
        have hwaiting := List.find?_some hfind
        exact .signal hstatus hnext (of_decide_eq_true hwaiting)
    | create u l =>
      rw [hnext] at h
      obtain ⟨hfresh, h⟩ := Option.ite_none_right_eq_some.mp h
      cases h
      exact .create hstatus hnext hfresh
    | join u l =>
      rw [hnext] at h
      dsimp only at h
      split at h
      next hu hexit =>
        cases h
        exact .join hstatus hnext ⟨hu, hexit⟩
      next => cases h
    | exit | fail =>
      rw [hnext] at h
      cases h

/-- What is played may happen. -/
theorem Run.play {k w : ℕ} (hall : ∀ u, u ∈ threads) (h : Run code s₀ k w s)
    (hplay : s.play code threads ts = some s') : Run code s₀ (k + ts.length) w s' := by
  induction ts generalizing s k with
  | nil =>
    cases hplay
    exact h
  | cons t ts ih =>
    rw [State.play] at hplay
    cases hadv : s.advance code threads t with
    | none =>
      rw [hadv] at hplay
      cases hplay
    | some s₁ =>
      rw [hadv] at hplay
      dsimp only at hplay
      split at hplay
      · cases hplay
      · next hne =>
        have hstep := Run.step h (Step.advance hall hadv) fun heq => hne (heq ▸ ⟨rfl, rfl⟩)
        rw [List.length_cons, Nat.add_comm ts.length, ← Nat.add_assoc]
        exact ih hstep hplay

end Play

end Monitor
