import Bluetea.BlueTest.Process
import Mathlib.Logic.Relation

/-!
# BlueTest: the processes step by step

The spawned process and its parent as a transition system.  A call of an entry is a sequence of
moves that change its local variables and the counters it has been given, so it can crash behind any
of them.  The process can be killed from outside at any moment.  The entry can ask `will_run_test`, so it is a function from the answer to the
moves.  What a move is, is a parameter: the checks of an entry are one choice.
-/

namespace Bluetea.BlueTest

variable {κ : Type*}

/-- Where the spawned process is. -/
inductive Phase (κ : Type*)
  /-- At `while (*entry)`, in `init_test` or in `run_test`. -/
  | loop (run : Bool) (entry : List (Bool → List κ)) (data : BluetestData)
  /-- In a call, with the moves that are left; `entry` is behind it. -/
  | call (run : Bool) (entry : List (Bool → List κ)) (todo : List κ) (f : Frame)
  | returned (exitCode : Int)
  | crashed (wstatus : ℕ)

/-- The wait status, once the process has ended. -/
def Phase.wstatus? : Phase κ → Option ℕ
  | loop .. | call .. => none
  | returned exitCode => some (exited exitCode)
  | crashed wstatus => some wstatus

/-- Where `handle_wait` is. -/
inductive Parent
  | waiting
  | reading (exitCode : Int) (data : BluetestData)
  | finished (exitCode : Int) (data : BluetestData)

/-- The reports that the spawned process has tried to send are kept in `sent`. -/
structure State (κ : Type*) where
  phase : Phase κ
  child : Child
  sent : List BluetestData
  parent : Parent

def State.start (suite : List (Bool → List κ)) (capacity : ℕ) : State κ :=
  ⟨.loop false suite .zero, .start capacity, [], .waiting⟩

/-- Tries to send a report. -/
def Child.report (c : Child) (data : BluetestData) : Child :=
  { c with pipe := (c.pipe.write data).2 }

/-- What the handler reports, and the process then. -/
def sigHandler (c : Child) : BluetestData × Child :=
  let data := c.gData
  (data, c.report data)

/-- The exit code for a process that was waited for. -/
def exitCode (wstatus : ℕ) : Int := if wIfExited wstatus then wExitStatus wstatus else wstatus

/-- One step of either process. -/
inductive Step (move : Bool → Frame → κ → Frame) (suite : List (Bool → List κ)) :
    State κ → State κ → Prop
  | enter {run e entry data c sent p} :
      Step move suite ⟨.loop run (e :: entry) data, c, sent, p⟩
        ⟨.call run entry (e run) ⟨0, data⟩, { c with willRunTest := run, gData := data }, sent, p⟩
  | move {run entry k todo f c sent p} :
      Step move suite ⟨.call run entry (k :: todo) f, c, sent, p⟩
        ⟨.call run entry todo (move c.willRunTest f k), c, sent, p⟩
  | leave {run entry f c sent p} :
      Step move suite ⟨.call run entry [] f, c, sent, p⟩
        ⟨.loop run entry f.data, c.report f.data, sent ++ [f.data], p⟩
  /-- `init_test` returns, and `run_test` starts with what it has left. -/
  | endInit {data c sent p} :
      Step move suite ⟨.loop false [] data, c, sent, p⟩
        ⟨.loop true suite data, { c with gData := data }, sent, p⟩
  | endRun {data c sent p} :
      Step move suite ⟨.loop true [] data, c, sent, p⟩
        ⟨.returned 0, { c with gData := data }, sent, p⟩
  /-- SIGSEGV or SIGABRT in the code of an entry: the handler reports, prints and kills the process.
  When there are no symbols to print, `pr_backtrace` calls `exit(EXIT_FAILURE)`. -/
  | crash {run entry todo f c sent p wstatus} (h : wIfSignaled wstatus ∨ wstatus = exited 1) :
      Step move suite ⟨.call run entry todo f, c, sent, p⟩
        ⟨.crashed wstatus, (sigHandler c).2, sent ++ [(sigHandler c).1], p⟩
  /-- A signal without a handler, anywhere. -/
  | kill {ph c sent p wstatus} (hrun : ph.wstatus? = none) (h : wIfSignaled wstatus) :
      Step move suite ⟨ph, c, sent, p⟩ ⟨.crashed wstatus, c, sent, p⟩
  /-- `waitpid` returns when the process has ended. -/
  | wait {ph c sent wstatus} (h : ph.wstatus? = some wstatus) :
      Step move suite ⟨ph, c, sent, .waiting⟩ ⟨ph, c, sent, .reading (exitCode wstatus) .zero⟩
  | read {ph g w cap d queued sent code data} :
      Step move suite ⟨ph, ⟨g, w, ⟨cap, d :: queued⟩⟩, sent, .reading code data⟩
        ⟨ph, ⟨g, w, ⟨cap, queued⟩⟩, sent, .reading code d⟩
  /-- `poll` finds nothing in the pipe. -/
  | timeout {ph g w cap sent code data} :
      Step move suite ⟨ph, ⟨g, w, ⟨cap, []⟩⟩, sent, .reading code data⟩
        ⟨ph, ⟨g, w, ⟨cap, []⟩⟩, sent, .finished code data⟩

/-- From one state to another in any number of steps. -/
abbrev Steps (move : Bool → Frame → κ → Frame) (suite : List (Bool → List κ)) :
    State κ → State κ → Prop :=
  Relation.ReflTransGen (Step move suite)

/-- The states that both processes can get into. -/
def Reachable (move : Bool → Frame → κ → Frame) (suite : List (Bool → List κ)) (capacity : ℕ)
    (s : State κ) : Prop :=
  Steps move suite (.start suite capacity) s

end Bluetea.BlueTest
