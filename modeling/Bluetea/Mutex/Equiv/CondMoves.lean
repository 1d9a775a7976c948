import Bluetea.Mutex.BasicCond
import Mathlib.Tactic.Ring

/-!
# What the two threads that take turns do

`place t l` says how far thread `t` is.  `Move` lists what a thread can do next, and `Effect` what a
step of the system can do; everything else is read off these two.
-/

namespace Bluetea.Mutex.BasicCond

open Monitor Function

/-- Where a thread holds the lock. -/
def Inside (_ : Thread) : Loc → Prop
  | .test _ | .before _ | .incr .. | .store .. | .after _ => True
  | _ => False

/-- How far a thread is, among its own locations. -/
def place : Thread → Loc → ℕ
  | .main, .condInit => 0
  | .main, .init => 1
  | .main, .create => 2
  | .main, .await => 3
  | .main, .lock .second => 4
  | .main, .test .second => 5
  | .main, .before .second => 6
  | .main, .incr .second _ => 7
  | .main, .store .second .. => 7
  | .main, .after .second => 8
  | .main, .signal .second => 9
  | .main, .join => 10
  | .main, .check => 11
  | .main, .condDestroy => 12
  | .main, .destroy => 13
  | .main, .exit => 14
  | .child, .begin => 0
  | .child, .lock .first => 1
  | .child, .incr .first _ => 2
  | .child, .store .first .. => 2
  | .child, .after .first => 3
  | .child, .signal .first => 4
  | .child, .lock .third => 5
  | .child, .test .third => 6
  | .child, .before .third => 7
  | .child, .incr .third _ => 8
  | .child, .store .third .. => 8
  | .child, .after .third => 9
  | .child, .exit => 10
  | _, _ => 15

/-- How often a thread has added one. -/
def counted (total : ℕ) : Thread → Loc → ℕ
  | .main, .incr _ i => i - 1
  | .main, .store _ i _ => i - 1
  | .main, l => if place .main l ≤ 6 then 0 else total
  | .child, .incr .first i => i - 1
  | .child, .store .first i _ => i - 1
  | .child, .incr _ i => total + (i - 1)
  | .child, .store _ i _ => total + (i - 1)
  | .child, l => if place .child l ≤ 1 then 0 else if place .child l ≤ 7 then total else 2 * total

/-- The counters are in range, and what has been read is still so. -/
def Ok (total : ℕ) (d : Data) : Loc → Prop
  | .incr _ i => 1 ≤ i ∧ i ≤ total + 1
  | .store _ i v => 1 ≤ i ∧ i ≤ total ∧ v = d.condVar
  | _ => True

variable {total : ℕ} {s s' : State Thread Loc Data} {t u : Thread} {l l' : Loc} {d d' : Data}

theorem discipline : Discipline (code total) Inside := by
  intro t l d
  cases l with
  | lock p =>
    simp only [code, btMutexLock]
    split
    · cases p <;> exact ⟨id, trivial⟩
    · trivial
  | test p =>
    simp only [code, btCondWait]
    repeat' split
    · -- to wait gives the lock back for a while only, and so counts as inside
      exact ⟨trivial, trivial⟩
    · trivial
    · trivial
    · exact Iff.rfl
  | before p =>
    simp only [code]
    split
    · exact Iff.rfl
    · trivial
  | incr p i =>
    simp only [code]
    split <;> exact Iff.rfl
  | after p =>
    simp only [code, btMutexUnlock]
    repeat' split
    · cases p <;> exact ⟨trivial, id⟩
    · trivial
    · trivial
  | signal p =>
    simp only [code, btCondSignal]
    split
    · cases p <;> exact Iff.rfl
    · trivial
  | await =>
    simp only [code]
    split <;> exact Iff.rfl
  | check =>
    simp only [code]
    split
    · exact Iff.rfl
    · trivial
  | exit => exact id
  | _ => exact Iff.rfl

/-! ### What a thread does -/

/-- The moves of the code. -/
inductive Move (total : ℕ) (d : Data) : Loc → Loc → Data → Prop
  | condInit : Move total d .condInit .init { d with condInit := true }
  | init : Move total d .init .create { d with lockInit := true }
  | create : Move total d .create .await d
  | spin (h : d.start = false) : Move total d .await .await d
  | started (h : d.start = true) : Move total d .await (.lock .second) d
  | begin : Move total d .begin (.lock .first) { d with start := true }
  | lock {p} : Move total d (.lock p) (afterLock p) d
  | wait {p} (h : d.condVar ≠ UInt64.ofNat (goal total p)) : Move total d (.test p) (.test p) d
  | pass {p} (h : d.condVar = UInt64.ofNat (goal total p)) : Move total d (.test p) (.before p) d
  | before {p} : Move total d (.before p) (.incr p 1) d
  | load {p i} (hi : i ≤ total) : Move total d (.incr p i) (.store p i d.condVar) d
  | endLoop {p i} (hi : total < i) : Move total d (.incr p i) (.after p) d
  | store {p i v} : Move total d (.store p i v) (.incr p (i + 1)) { d with condVar := v + 1 }
  | unlock {p} : Move total d (.after p) (afterUnlock p) d
  | signal {p} : Move total d (.signal p) (afterSignal p) d
  | join : Move total d .join .check d
  | check : Move total d .check .condDestroy d
  | condDestroy : Move total d .condDestroy .destroy { d with condInit := false }
  | destroy : Move total d .destroy .exit { d with lockInit := false }

theorem move_of_leads (h : (code total t l d).Leads d l' d') : Move total d l l' d' := by
  cases l with
  | condInit =>
    obtain ⟨rfl, rfl⟩ := h
    exact .condInit
  | init =>
    obtain ⟨rfl, rfl⟩ := h
    exact .init
  | create =>
    obtain ⟨rfl, rfl⟩ := h
    exact .create
  | await =>
    obtain ⟨rfl, rfl⟩ := h
    cases hstart : d'.start with
    | true => exact .started hstart
    | false => exact .spin hstart
  | begin =>
    obtain ⟨rfl, rfl⟩ := h
    exact .begin
  | lock p =>
    rw [code, btMutexLock] at h
    split at h
    · obtain ⟨rfl, rfl⟩ := h
      exact .lock
    · -- an assertion that fails leads nowhere
      cases h
  | test p =>
    rw [code] at h
    by_cases hgoal : d.condVar = UInt64.ofNat (goal total p)
    · rw [if_neg (not_not_intro hgoal)] at h
      obtain ⟨rfl, rfl⟩ := h
      exact .pass hgoal
    · rw [if_pos hgoal, btCondWait] at h
      split at h
      · split at h
        · obtain ⟨rfl, rfl⟩ := h
          exact .wait hgoal
        · cases h
      · cases h
  | before p =>
    rw [code] at h
    split at h
    · obtain ⟨rfl, rfl⟩ := h
      exact .before
    · cases h
  | incr p i =>
    obtain ⟨rfl, rfl⟩ := h
    by_cases hi : i ≤ total
    · rw [if_pos hi]
      exact .load hi
    · rw [if_neg hi]
      exact .endLoop (Nat.lt_of_not_le hi)
  | store p i v =>
    obtain ⟨rfl, rfl⟩ := h
    exact .store
  | after p =>
    rw [code, btMutexUnlock] at h
    split at h
    · split at h
      · obtain ⟨rfl, rfl⟩ := h
        exact .unlock
      · cases h
    · cases h
  | signal p =>
    rw [code, btCondSignal] at h
    split at h
    · obtain ⟨rfl, rfl⟩ := h
      exact .signal
    · cases h
  | join =>
    obtain ⟨rfl, rfl⟩ := h
    exact .join
  | check =>
    rw [code] at h
    split at h
    · obtain ⟨rfl, rfl⟩ := h
      exact .check
    · cases h
  | condDestroy =>
    obtain ⟨rfl, rfl⟩ := h
    exact .condDestroy
  | destroy =>
    obtain ⟨rfl, rfl⟩ := h
    exact .destroy
  | exit => cases h

/-- A thread adds one inside the lock, and does not change the number elsewhere. -/
theorem Move.adds (h : Move total d l l' d') (hok : Ok total d l) (hplace : place t l < 15) :
    Ok total d' l' ∧
      ((d'.condVar = d.condVar ∧ counted total t l' = counted total t l) ∨
        (Inside t l ∧ d'.condVar = d.condVar + 1 ∧ counted total t l' = counted total t l + 1)) := by
  cases h with
  | @load p i hi =>
    refine ⟨⟨hok.1, hi, rfl⟩, Or.inl ⟨rfl, ?_⟩⟩
    cases t <;> cases p <;> rfl
  -- the loop ends only with `i` at the total, where the count of this thread stands already
  | @endLoop p i hi =>
    have hlast : i - 1 = total := by
      have hle := hok.2
      omega
    refine ⟨trivial, Or.inl ⟨rfl, ?_⟩⟩
    cases t <;> cases p <;> simp [counted, place, hlast] at hplace ⊢
    omega
  -- the one move that writes `cond_var`: both sides go up by one
  | @store p i v =>
    obtain ⟨hpos, hle, rfl⟩ := hok
    refine ⟨⟨Nat.le_add_left 1 i, Nat.succ_le_succ hle⟩, Or.inr ⟨trivial, rfl, ?_⟩⟩
    cases t <;> cases p <;> simp only [counted] <;> omega
  | @before p =>
    refine ⟨⟨Nat.le_refl 1, Nat.le_add_left 1 total⟩, Or.inl ⟨rfl, ?_⟩⟩
    cases t <;> cases p <;> simp [counted, place] at hplace ⊢
  | @lock p =>
    cases t <;> cases p <;>
      simp [counted, place, afterLock, Ok] at hplace ⊢
  | @pass p =>
    cases t <;> cases p <;> simp [counted, place, Ok] at hplace ⊢
  | @unlock p =>
    cases t <;> cases p <;> simp [counted, place, afterUnlock, Ok] at hplace ⊢
  | @signal p =>
    cases t <;> cases p <;> simp [counted, place, afterSignal, Ok] at hplace ⊢
  | wait => exact ⟨trivial, Or.inl ⟨rfl, rfl⟩⟩
  | _ =>
    cases t <;> simp [counted, place, Ok] at hplace ⊢

theorem Move.place_le (h : Move total d l l' d') (hplace : place t l < 15) :
    place t l' < 15 ∧ (place t l' = place t l ∨ place t l' = place t l + 1) := by
  cases h with
  | @load p => cases t <;> cases p <;> simp [place] at hplace ⊢
  | @endLoop p => cases t <;> cases p <;> simp [place] at hplace ⊢
  | @store p => cases t <;> cases p <;> simp [place] at hplace ⊢
  | @before p => cases t <;> cases p <;> simp [place] at hplace ⊢
  | @lock p => cases t <;> cases p <;> simp [place, afterLock] at hplace ⊢
  | @pass p => cases t <;> cases p <;> simp [place] at hplace ⊢
  | @unlock p => cases t <;> cases p <;> simp [place, afterUnlock] at hplace ⊢
  | @signal p => cases t <;> cases p <;> simp [place, afterSignal] at hplace ⊢
  | wait => exact ⟨hplace, Or.inl rfl⟩
  | _ => cases t <;> simp [place] at hplace ⊢

/-- The condition and the lock, as long as the test is where they are in use. -/
def Made (d : Data) (n : ℕ) : Prop :=
  (1 ≤ n → n ≤ 12 → d.condInit = true) ∧ (2 ≤ n → n ≤ 13 → d.lockInit = true)

theorem Move.main (h : Move total d l l' d') (hplace : place .main l < 15)
    (hmade : Made d (place .main l)) : d'.start = d.start ∧ Made d' (place .main l') := by
  cases h with
  | begin => simp [place] at hplace
  | condInit => exact ⟨rfl, by simp [Made, place]⟩
  | init =>
    refine ⟨rfl, ?_⟩
    simpa [Made, place] using hmade
  -- only the destroys undo something, and `Made` asks for less behind each
  | condDestroy =>
    refine ⟨rfl, ?_⟩
    simp [Made, place] at hmade ⊢
    exact hmade.2
  | destroy => exact ⟨rfl, by simp [Made, place]⟩
  | @load p => cases p <;> exact ⟨rfl, hmade⟩
  | @endLoop p =>
    cases p <;> simp [Made, place] at hplace hmade ⊢
    exact hmade
  | @store p => cases p <;> exact ⟨rfl, hmade⟩
  | @before p =>
    cases p <;> simp [Made, place] at hplace hmade ⊢
    exact hmade
  | @lock p =>
    cases p <;> simp [Made, place, afterLock] at hplace hmade ⊢
    exact hmade
  | @pass p =>
    cases p <;> simp [Made, place] at hplace hmade ⊢
    exact hmade
  | @unlock p =>
    cases p <;> simp [Made, place, afterUnlock] at hplace hmade ⊢
    exact hmade
  | @signal p =>
    cases p <;> simp [Made, place, afterSignal] at hplace hmade ⊢
    exact hmade
  | wait => exact ⟨rfl, hmade⟩
  | spin => exact ⟨rfl, hmade⟩
  | _ =>
    simp [Made, place] at hmade ⊢
    exact hmade

theorem Move.child (h : Move total d l l' d') (hplace : place .child l < 15) :
    d'.lockInit = d.lockInit ∧ d'.condInit = d.condInit ∧ 1 ≤ place .child l' ∧
      (1 ≤ place .child l → d'.start = d.start) ∧ (place .child l = 0 → d'.start = true) := by
  cases h with
  | @load p => cases p <;> simp [place]
  | @endLoop p => cases p <;> simp [place]
  | @store p => cases p <;> simp [place]
  | @before p => cases p <;> simp [place]
  | @lock p => cases p <;> simp [place, afterLock]
  | @pass p => cases p <;> simp [place]
  | @unlock p => cases p <;> simp [place, afterUnlock]
  | @signal p => cases p <;> simp [place, afterSignal]
  | @wait p => cases p <;> simp [place]
  | _ => simp [place] at hplace ⊢

/-! ### Places -/

theorem counted_main (total : ℕ) (hlt : place .main l < 15) :
    (place .main l ≤ 6 → counted total .main l = 0) ∧
      (8 ≤ place .main l → counted total .main l = total) := by
  unfold place at hlt ⊢
  split <;> simp_all [counted, place]

theorem counted_child (total : ℕ) (hlt : place .child l < 15) :
    (place .child l ≤ 1 → counted total .child l = 0) ∧
      (3 ≤ place .child l → place .child l ≤ 7 → counted total .child l = total) ∧
      (9 ≤ place .child l → counted total .child l = 2 * total) := by
  unfold place at hlt ⊢
  split <;> simp_all [counted, place]

theorem inside_main (hlt : place .main l < 15) :
    Inside .main l ↔ 5 ≤ place .main l ∧ place .main l ≤ 8 := by
  unfold place at hlt ⊢
  split <;> simp_all [Inside]

theorem inside_child (hlt : place .child l < 15) :
    Inside .child l ↔ (2 ≤ place .child l ∧ place .child l ≤ 3) ∨
      (6 ≤ place .child l ∧ place .child l ≤ 9) := by
  unfold place at hlt ⊢
  split <;> simp_all [Inside]

theorem loc_of_place_main :
    (place .main l = 2 → l = .create) ∧ (place .main l = 5 → l = .test .second) ∧
      (place .main l = 9 → l = .signal .second) ∧ (place .main l = 10 → l = .join) := by
  unfold place
  split <;> simp_all

theorem loc_of_place_child :
    (place .child l = 4 → l = .signal .first) ∧ (place .child l = 6 → l = .test .third) ∧
      (place .child l = 10 → l = .exit) := by
  unfold place
  split <;> simp_all

/-! ### What a step does -/

/-- Which instructions there are at which locations. -/
def Kind (total : ℕ) (d : Data) (l : Loc) : Instr Thread Loc Data → Prop
  | .wait l' => ∃ p, l = .test p ∧ l' = .test p ∧ d.condVar ≠ UInt64.ofNat (goal total p)
  | .signal l' => ∃ p, l = .signal p ∧ l' = afterSignal p
  | .create u l' => l = .create ∧ u = .child ∧ l' = .await
  | .join u _ => l = .join ∧ u = .child
  | .exit => l = .exit
  | .go _ l' => l ≠ .create ∧ l ≠ .join ∧ (∀ p, l ≠ .signal p) ∧ ∀ p, l = .test p → l' = .before p
  | .lock _ | .unlock _ => l ≠ .create ∧ l ≠ .join ∧ (∀ p, l ≠ .signal p) ∧ (∀ p, l ≠ .test p) ∧
      l ≠ .await
  | .fail => True

theorem kind_code (total : ℕ) (t : Thread) (l : Loc) (d : Data) :
    Kind total d l (code total t l d) := by
  cases l with
  | lock p =>
    simp only [code, btMutexLock]
    split <;> simp [Kind]
  | test p =>
    simp only [code, btCondWait]
    repeat' split
    all_goals simp_all [Kind]
  | before p =>
    simp only [code]
    split <;> simp [Kind]
  | after p =>
    simp only [code, btMutexUnlock]
    repeat' split
    all_goals simp [Kind]
  | signal p =>
    simp only [code, btCondSignal]
    split <;> simp [Kind]
  | check =>
    simp only [code]
    split <;> simp [Kind]
  | _ => simp [code, Kind]

/-- What one step does. -/
inductive Effect (total : ℕ) (s s' : State Thread Loc Data) : Prop
  /-- A thread moves, and none sleeps or wakes. -/
  | move (t : Thread) (l : Loc) (hrun : s.status t = .running)
    (hmove : Move total s.data (s.loc t) l s'.data) (hloc : s'.loc = update s.loc t l)
    (hstatus : s'.status = s.status) (hcreate : s.loc t ≠ .create)
    (hjoin : s.loc t = .join → s.loc .child = .exit)
    (htest : ∀ p, s.loc t = .test p → l = .before p)
    (hsignal : ∀ p, s.loc t = .signal p → ∀ u, s.status u ≠ .waiting)
    (howner : s.loc t = .await → s'.owner = s.owner)
  | wait (t : Thread) (p : Turn) (hrun : s.status t = .running) (hl : s.loc t = .test p)
    (hgoal : s.data.condVar ≠ UInt64.ofNat (goal total p)) (hloc : s'.loc = s.loc)
    (hdata : s'.data = s.data) (hstatus : s'.status = update s.status t .waiting)
  | resume (t : Thread) (hwoken : s.status t = .woken) (hloc : s'.loc = s.loc)
    (hdata : s'.data = s.data) (hstatus : s'.status = update s.status t .running)
  | signal (t u : Thread) (p : Turn) (hrun : s.status t = .running) (hl : s.loc t = .signal p)
    (hwaiting : s.status u = .waiting) (hloc : s'.loc = update s.loc t (afterSignal p))
    (hdata : s'.data = s.data) (hstatus : s'.status = update s.status u .woken)
  | create (t : Thread) (hrun : s.status t = .running) (hl : s.loc t = .create)
    (hloc : s'.loc = update s.loc t .await) (hdata : s'.data = s.data)
    (hstatus : s'.status = update s.status .child .running)

theorem effect_of_step (hstep : Step (code total) s s') : Effect total s s' := by
  have hkind : ∀ t, Kind total s.data (s.loc t) (s.next (code total) t) := fun t => kind_code ..
  have hmove : ∀ t l d, (s.next (code total) t).Leads s.data l d →
      Move total s.data (s.loc t) l d := fun t l d => move_of_leads
  cases hstep with
  | @go t d l hrun hnext =>
    have hk := hkind t
    rw [hnext] at hk
    exact .move t l hrun (hmove t l d (by rw [hnext]; exact ⟨rfl, rfl⟩)) rfl rfl hk.1
      (fun hj => absurd hj hk.2.1) hk.2.2.2 (fun p hp => absurd hp (hk.2.2.1 p)) fun _ => rfl
  | @lock t l hrun hnext hfree =>
    have hk := hkind t
    rw [hnext] at hk
    exact .move t l hrun (hmove t l _ (by rw [hnext]; exact ⟨rfl, rfl⟩)) rfl rfl hk.1
      (fun hj => absurd hj hk.2.1) (fun p hp => absurd hp (hk.2.2.2.1 p))
      (fun p hp => absurd hp (hk.2.2.1 p)) fun ha => absurd ha hk.2.2.2.2
  | @unlock t l hrun hnext hown =>
    have hk := hkind t
    rw [hnext] at hk
    exact .move t l hrun (hmove t l _ (by rw [hnext]; exact ⟨rfl, rfl⟩)) rfl rfl hk.1
      (fun hj => absurd hj hk.2.1) (fun p hp => absurd hp (hk.2.2.2.1 p))
      (fun p hp => absurd hp (hk.2.2.1 p)) fun ha => absurd ha hk.2.2.2.2
  | @wait t l hrun hnext hown =>
    have hk := hkind t
    rw [hnext] at hk
    obtain ⟨p, hl, rfl, hgoal⟩ := hk
    refine .wait t p hrun hl hgoal ?_ rfl rfl
    -- the thread stays at its test
    show update s.loc t (.test p) = s.loc
    rw [← hl, update_eq_self]
  | @resume t hwoken hfree => exact .resume t hwoken rfl rfl rfl
  | @signal t u l hrun hnext hwaiting =>
    have hk := hkind t
    rw [hnext] at hk
    obtain ⟨p, hl, rfl⟩ := hk
    exact .signal t u p hrun hl hwaiting rfl rfl rfl
  | @signalNone t l hrun hnext hnone =>
    have hk := hkind t
    rw [hnext] at hk
    -- a signal that nobody waits for is a move like the others
    obtain ⟨p, hl, rfl⟩ := hk
    refine .move t _ hrun (hmove t _ _ (by rw [hnext]; exact ⟨rfl, rfl⟩)) rfl rfl ?_ ?_ ?_
      (fun _ _ => hnone) fun _ => rfl
    · rw [hl]
      simp
    · rw [hl]
      simp
    · rw [hl]
      simp
  | @create t u l hrun hnext hfresh =>
    have hk := hkind t
    rw [hnext] at hk
    obtain ⟨hl, rfl, rfl⟩ := hk
    exact .create t hrun hl rfl rfl rfl
  | @join t u l hrun hnext hexit =>
    have hk := hkind t
    rw [hnext] at hk
    obtain ⟨hl, rfl⟩ := hk
    have hchild := hkind .child
    rw [hexit.2] at hchild
    refine .move t l hrun (hmove t l _ (by rw [hnext]; exact ⟨rfl, rfl⟩)) rfl rfl ?_ (fun _ => hchild)
      ?_ ?_ fun _ => rfl
    · rw [hl]
      simp
    · rw [hl]
      simp
    · rw [hl]
      simp

end Bluetea.Mutex.BasicCond
