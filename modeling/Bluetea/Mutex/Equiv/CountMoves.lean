import Bluetea.Mutex.BasicMutex

/-!
# The moves of the two threads that count

The threads hold the lock where they should (`discipline`), and what a thread does is one of the moves of
the code (`move_of_leads`), each of which counts at most one.
-/

namespace Bluetea.Mutex.BasicMutex

open Monitor Function

/-- Where a thread holds the lock. -/
def Inside (_ : Thread) : Loc → Prop
  | .inner .. | .store .. => True
  | _ => False

/-- How often a thread has added one. -/
def counted (rounds steps : ℕ) : Loc → ℕ
  | .init | .create | .await | .begin => 0
  | .outer i => i * steps
  | .inner i j | .store i j _ => i * steps + j
  | .join | .check | .destroy | .exit => rounds * steps

/-- The counters are in range, and what has been read is still so. -/
def Ok (rounds steps : ℕ) (d : Data) : Loc → Prop
  | .outer i => i ≤ rounds
  | .inner i j => i < rounds ∧ j ≤ steps
  | .store i j v => i < rounds ∧ j < steps ∧ v = d.num
  | _ => True

variable {rounds steps : ℕ} {s s' : State Thread Loc Data} {t u : Thread} {l l' : Loc} {d d' : Data}

theorem discipline : Discipline (code rounds steps) Inside := by
  intro t l d
  cases l with
  | outer i =>
    simp only [code, btMutexLock]
    split
    · split
      · exact ⟨id, trivial⟩
      · trivial
    · cases t <;> exact Iff.rfl
  | inner i j =>
    simp only [code, btMutexUnlock]
    split
    · exact Iff.rfl
    · split
      · exact ⟨trivial, id⟩
      · trivial
  | await =>
    simp only [code]
    split <;> exact Iff.rfl
  | check =>
    simp only [code]
    split
    · exact Iff.rfl
    · trivial
  | exit => exact id
  | _ => exact Iff.rfl

/-! ### What a thread does -/

/-- The moves of the code: where thread `t` goes, and the data then. -/
inductive Move (rounds steps : ℕ) (t : Thread) (d : Data) : Loc → Loc → Data → Prop
  | init : Move rounds steps t d .init .create { d with lockInit := true }
  | create : Move rounds steps t d .create .await d
  | spin (h : d.start = false) : Move rounds steps t d .await .await d
  | started (h : d.start = true) : Move rounds steps t d .await (.outer 0) d
  | begin : Move rounds steps t d .begin (.outer 0) { d with start := true }
  | lock {i} (hi : i < rounds) : Move rounds steps t d (.outer i) (.inner i 0) d
  | endLoop {i} (hi : rounds ≤ i) : Move rounds steps t d (.outer i) (afterLoop t) d
  | load {i j} (hj : j < steps) : Move rounds steps t d (.inner i j) (.store i j d.num) d
  | unlock {i j} (hj : steps ≤ j) : Move rounds steps t d (.inner i j) (.outer (i + 1)) d
  | store {i j v} : Move rounds steps t d (.store i j v) (.inner i (j + 1)) { d with num := v + 1 }
  | join : Move rounds steps t d .join .check d
  | check : Move rounds steps t d .check .destroy d
  | destroy : Move rounds steps t d .destroy .exit { d with lockInit := false }

theorem move_of_leads (h : (code rounds steps t l d).Leads d l' d') :
    Move rounds steps t d l l' d' := by
  cases l with
  | init =>
    obtain ⟨rfl, rfl⟩ := h
    exact .init
  | create =>
    obtain ⟨rfl, rfl⟩ := h
    exact .create
  | await =>
    obtain ⟨rfl, rfl⟩ := h
    cases hstart : d'.start with
    | true => exact .started hstart
    | false => exact .spin hstart
  | begin =>
    obtain ⟨rfl, rfl⟩ := h
    exact .begin
  | outer i =>
    rw [code] at h
    by_cases hi : i < rounds
    · rw [if_pos hi, btMutexLock] at h
      split at h
      · obtain ⟨rfl, rfl⟩ := h
        exact .lock hi
      · -- a lock that has not been made fails the assertion, which leads nowhere
        cases h
    · rw [if_neg hi] at h
      obtain ⟨rfl, rfl⟩ := h
      exact .endLoop (Nat.le_of_not_lt hi)
  | inner i j =>
    rw [code] at h
    by_cases hj : j < steps
    · rw [if_pos hj] at h
      obtain ⟨rfl, rfl⟩ := h
      exact .load hj
    · rw [if_neg hj, btMutexUnlock] at h
      split at h
      · obtain ⟨rfl, rfl⟩ := h
        exact .unlock (Nat.le_of_not_lt hj)
      · cases h
  | store i j v =>
    obtain ⟨rfl, rfl⟩ := h
    exact .store
  | join =>
    obtain ⟨rfl, rfl⟩ := h
    exact .join
  | check =>
    rw [code] at h
    split at h
    · obtain ⟨rfl, rfl⟩ := h
      exact .check
    · cases h
  | destroy =>
    obtain ⟨rfl, rfl⟩ := h
    exact .destroy
  | exit => cases h

/-- A thread adds one inside the lock, and does not change the number elsewhere. -/
theorem Move.counted (h : Move rounds steps t d l l' d') (hok : Ok rounds steps d l) :
    Ok rounds steps d' l' ∧
      ((d'.num = d.num ∧ counted rounds steps l' = counted rounds steps l) ∨
        (Inside t l ∧ d'.num = d.num + 1 ∧
          counted rounds steps l' = counted rounds steps l + 1)) := by
  cases h with
  | started => exact ⟨Nat.zero_le _, Or.inl ⟨rfl, Nat.zero_mul _⟩⟩
  | begin => exact ⟨Nat.zero_le _, Or.inl ⟨rfl, Nat.zero_mul _⟩⟩
  | lock hi => exact ⟨⟨hi, Nat.zero_le _⟩, Or.inl ⟨rfl, rfl⟩⟩
  | endLoop hi =>
    obtain rfl := Nat.le_antisymm hok hi
    cases t <;> exact ⟨trivial, Or.inl ⟨rfl, rfl⟩⟩
  | load hj => exact ⟨⟨hok.1, hj, rfl⟩, Or.inl ⟨rfl, rfl⟩⟩
  | unlock hj =>
    obtain rfl := Nat.le_antisymm hok.2 hj
    exact ⟨hok.1, Or.inl ⟨rfl, Nat.succ_mul _ _⟩⟩
  | store =>
    obtain ⟨hi, hj, rfl⟩ := hok
    exact ⟨⟨hi, hj⟩, Or.inr ⟨trivial, rfl, rfl⟩⟩
  | _ => exact ⟨trivial, Or.inl ⟨rfl, rfl⟩⟩

/-- Where the thread that the test creates can be. -/
def Worker : Loc → Prop
  | .begin | .outer _ | .inner .. | .store .. | .exit => True
  | _ => False

theorem Move.child (h : Move rounds steps .child d l l' d') (hl : Worker l) :
    Worker l' ∧ d'.lockInit = d.lockInit ∧ l' ≠ .begin ∧
      (l = .begin ∧ d'.start = true ∨ l ≠ .begin ∧ d'.start = d.start) := by
  cases h with
  | begin => exact ⟨trivial, rfl, by simp, Or.inl ⟨rfl, rfl⟩⟩
  | lock => exact ⟨trivial, rfl, by simp, Or.inr ⟨by simp, rfl⟩⟩
  | endLoop => exact ⟨trivial, rfl, by simp [afterLoop], Or.inr ⟨by simp, rfl⟩⟩
  | load => exact ⟨trivial, rfl, by simp, Or.inr ⟨by simp, rfl⟩⟩
  | unlock => exact ⟨trivial, rfl, by simp, Or.inr ⟨by simp, rfl⟩⟩
  | store => exact ⟨trivial, rfl, by simp, Or.inr ⟨by simp, rfl⟩⟩
  | _ => cases hl

/-- The lock has been made and not yet been destroyed. -/
def Made : Loc → Prop
  | .init | .exit => False
  | _ => True

/-- The thread has been joined. -/
def Joined : Loc → Prop
  | .check | .destroy | .exit => True
  | _ => False

theorem Move.main (h : Move rounds steps .main d l l' d') (hl : l ≠ .begin)
    (hmade : Made l → d.lockInit = true) :
    l' ≠ .begin ∧ d'.start = d.start ∧ (Made l' → d'.lockInit = true) ∧
      (Joined l' → Joined l ∨ l = .join) ∧ (l' = .create ↔ l = .init) ∧ l' ≠ .init := by
  cases h with
  | init => exact ⟨by simp, rfl, fun _ => rfl, False.elim, by simp, by simp⟩
  | begin => exact absurd rfl hl
  | endLoop => exact ⟨by simp [afterLoop], rfl, hmade, False.elim, by simp [afterLoop], by simp [afterLoop]⟩
  | join => exact ⟨by simp, rfl, hmade, fun _ => Or.inr rfl, by simp, by simp⟩
  | check => exact ⟨by simp, rfl, hmade, Or.inl, by simp, by simp⟩
  | destroy => exact ⟨by simp, rfl, False.elim, Or.inl, by simp, by simp⟩
  | _ => exact ⟨by simp, rfl, hmade, False.elim, by simp, by simp⟩

/-- Which instructions there are at which locations. -/
def Kind (l : Loc) : Instr Thread Loc Data → Prop
  | .wait _ | .signal _ => False
  | .create u _ => l = .create ∧ u = .child
  | .join u _ => l = .join ∧ u = .child
  | .exit => l = .exit
  | .lock _ | .unlock _ => l ≠ .create ∧ l ≠ .join ∧ l ≠ .await
  | .go .. | .fail => l ≠ .create ∧ l ≠ .join

theorem kind_code (rounds steps : ℕ) (t : Thread) (l : Loc) (d : Data) :
    Kind l (code rounds steps t l d) := by
  cases l with
  | outer i =>
    simp only [code, btMutexLock]
    repeat' split
    all_goals simp [Kind]
  | inner i j =>
    simp only [code, btMutexUnlock]
    repeat' split
    all_goals simp [Kind]
  | check =>
    simp only [code]
    split <;> exact ⟨by simp, by simp⟩
  | create => exact ⟨rfl, rfl⟩
  | join => exact ⟨rfl, rfl⟩
  | exit => rfl
  | _ => exact ⟨by simp, by simp⟩

end Bluetea.Mutex.BasicMutex
