import Bluetea.BlueTest.Process
import Bluetea.Machine.Run
import Bluetea.TeaTest.Basic

/-!
# TeaTest: the two processes step by step

`teatest/teatest.c`.  The test process, which runs under valgrind, sends a report after every entry
into a pipe that blocks; the parent waits for it to end and reads the reports then.  The handler of
SIGSEGV and SIGABRT sends a report as well: the counters as they are at that moment.

A step is one of the program; a strike is a signal: SIGSEGV or SIGABRT from the code of an entry
itself, or one without a handler, which may come at any moment.
-/

namespace Bluetea.TeaTest

open BlueTest (exited wIfExited wIfSignaled wExitStatus)

/-- `sizeof(point_t)` -/
def reportSize : ℕ := 8

def SIGABRT : ℕ := 6

def SIGSEGV : ℕ := 11

/-- What valgrind makes of the exit code when it has found errors. -/
def valgrindError : Int := 99

/-- The reports in the pipe, oldest first. -/
structure Pipe where
  capacity : ℕ
  queued : List Point

/-- A report is written whole; the writer waits until there is room for it. -/
def Pipe.HasRoom (p : Pipe) : Prop := reportSize * (p.queued.length + 1) ≤ p.capacity

instance (p : Pipe) : Decidable p.HasRoom := inferInstanceAs (Decidable (_ ≤ _))

/-- Where the test process is. -/
inductive Phase
  /-- At `while (*test_entry)`, in `init_test` or in `run_test`, with the variable `fail` of the
  latter. -/
  | loop (run : Bool) (entry : List TestEntry) (fail : Bool)
  /-- In a call, with the checks that are left and `____ret`; `entry` is behind it. -/
  | call (run : Bool) (entry : List TestEntry) (fail : Bool) (todo : List Check) (ret : Int)
  /-- At the `write` behind a call. -/
  | report (run : Bool) (entry : List TestEntry) (fail : Bool)
  /-- At the `write` of the handler. -/
  | handler (sig : ℕ)
  /-- The handler prints the backtrace. -/
  | backtrace (sig : ℕ)
  | returned (exitCode : Int)
  | ended (wstatus : ℕ)
  deriving DecidableEq

/-- Where `handle_wait` is, with the buffer it reads into, which is not initialised. -/
inductive Parent
  | waiting
  | reading (exitCode : Int) (buf : Option Point)
  /-- `print_info` has been called with the exit code and the buffer. -/
  | finished (exitCode : Int) (buf : Option Point)
  /-- `return -1` -/
  | unknownError
  deriving DecidableEq

/-- What `handle_wait` returns, and the parent then. -/
def Parent.ret? : Parent → Option Int
  | waiting | reading .. => none
  | finished exitCode _ => some exitCode
  | unknownError => some (-1)

/-- The reports that got into the pipe are kept in `sent`. -/
structure State where
  phase : Phase
  globals : Globals
  pipe : Pipe
  sent : List Point
  parent : Parent

def State.start (tests : List TestEntry) (capacity : ℕ) : State :=
  ⟨.loop false tests false, ⟨false, 0, 0⟩, ⟨capacity, []⟩, [], .waiting⟩

/-- One step of either process. -/
inductive Step (tests : List TestEntry) : State → State → Prop
  | enter {run e entry fail g p sent q} :
      Step tests ⟨.loop run (e :: entry) fail, g, p, sent, q⟩
        ⟨.call run entry fail (e.checks (tqAssertIsExec g)) 0, g, p, sent, q⟩
  | check {run entry fail k todo ret g p sent q} :
      Step tests ⟨.call run entry fail (k :: todo) ret, g, p, sent, q⟩
        ⟨.call run entry fail todo (k.exec ⟨ret, g⟩).ret, (k.exec ⟨ret, g⟩).globals, p, sent, q⟩
  /-- `init_test` does not look at what the entry returns. -/
  | leave {run entry fail ret g p sent q} :
      Step tests ⟨.call run entry fail [] ret, g, p, sent, q⟩
        ⟨.report run entry (if run ∧ ret ≠ 0 then true else fail), g, p, sent, q⟩
  | send {run entry fail g cap queued sent q} (hroom : Pipe.HasRoom ⟨cap, queued⟩) :
      Step tests ⟨.report run entry fail, g, ⟨cap, queued⟩, sent, q⟩
        ⟨.loop run entry fail, g, ⟨cap, queued ++ [g.data]⟩, sent ++ [g.data], q⟩
  /-- `init_test` returns, and `run_test` starts. -/
  | endInit {fail g p sent q} :
      Step tests ⟨.loop false [] fail, g, p, sent, q⟩
        ⟨.loop true tests false, { g with isExec := true }, p, sent, q⟩
  | endRun {fail g p sent q} :
      Step tests ⟨.loop true [] fail, g, p, sent, q⟩
        ⟨.returned (if fail then 1 else 0), g, p, sent, q⟩
  | sendCrash {sig g cap queued sent q} (hroom : Pipe.HasRoom ⟨cap, queued⟩) :
      Step tests ⟨.handler sig, g, ⟨cap, queued⟩, sent, q⟩
        ⟨.backtrace sig, g, ⟨cap, queued ++ [g.data]⟩, sent ++ [g.data], q⟩
  /-- `raise(sig)` kills the process. -/
  | raise {sig g p sent q wstatus} (hw : wIfSignaled wstatus) :
      Step tests ⟨.backtrace sig, g, p, sent, q⟩ ⟨.ended wstatus, g, p, sent, q⟩
  /-- `exit(EXIT_FAILURE)` when there are no symbols, or `exit(1)` when the signal is held back, as
  it is while it is being handled. -/
  | exitHandler {sig g p sent q} :
      Step tests ⟨.backtrace sig, g, p, sent, q⟩ ⟨.returned 1, g, p, sent, q⟩
  | exit {code g p sent q} :
      Step tests ⟨.returned code, g, p, sent, q⟩ ⟨.ended (exited code), g, p, sent, q⟩
  | exitValgrind {code g p sent q} :
      Step tests ⟨.returned code, g, p, sent, q⟩ ⟨.ended (exited valgrindError), g, p, sent, q⟩
  | wait {wstatus g p sent} :
      Step tests ⟨.ended wstatus, g, p, sent, .waiting⟩
        ⟨.ended wstatus, g, p, sent,
          if wIfExited wstatus then .reading (wExitStatus wstatus) none else .unknownError⟩
  | read {ph g cap d queued sent code buf} :
      Step tests ⟨ph, g, ⟨cap, d :: queued⟩, sent, .reading code buf⟩
        ⟨ph, g, ⟨cap, queued⟩, sent, .reading code (some d)⟩
  /-- `poll` finds nothing in the pipe. -/
  | timeout {ph g cap sent code buf} :
      Step tests ⟨ph, g, ⟨cap, []⟩, sent, .reading code buf⟩
        ⟨ph, g, ⟨cap, []⟩, sent, .finished code buf⟩

/-- A signal strikes the test process. -/
inductive Strike : State → State → Prop
  /-- A fault, or an `abort`, in an entry. -/
  | crash {run entry fail todo ret g p sent q sig} (hsig : sig = SIGSEGV ∨ sig = SIGABRT) :
      Strike ⟨.call run entry fail todo ret, g, p, sent, q⟩ ⟨.handler sig, g, p, sent, q⟩
  /-- A signal without a handler, anywhere. -/
  | kill {ph g p sent q wstatus} (hrun : ∀ w, ph ≠ .ended w) (hw : wIfSignaled wstatus) :
      Strike ⟨ph, g, p, sent, q⟩ ⟨.ended wstatus, g, p, sent, q⟩

/-- From one state to another in any number of steps, without a strike. -/
abbrev Steps (tests : List TestEntry) : State → State → Prop := Relation.ReflTransGen (Step tests)

/-- From one state to another, with strikes. -/
abbrev Runs (tests : List TestEntry) : State → State → Prop :=
  Relation.ReflTransGen (fun s s' => Step tests s s' ∨ Strike s s')

/-- The states that both processes can get into. -/
def Reachable (tests : List TestEntry) (capacity : ℕ) (s : State) : Prop :=
  Runs tests (.start tests capacity) s

/-- Runs of a number of steps and strikes. -/
abbrev RunOf (tests : List TestEntry) : State → ℕ → State → Prop :=
  Machine.StepsOf fun s s' => Step tests s s' ∨ Strike s s'

/-- The parent does not return, and neither process can go on. -/
def Stuck (tests : List TestEntry) (s : State) : Prop :=
  s.parent.ret? = none ∧ ∀ s', ¬ Step tests s s'

end Bluetea.TeaTest
