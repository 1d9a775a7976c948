import Bluetea.BlueTest.Basic
import Bluetea.CString.Basic

/-!
# BlueTest: the two processes

`bluetest/bluetest.c`.  The spawned process runs the suite and sends a report after every entry,
into a pipe that does not block; the parent waits for it to end, and reads the reports then.  The
descriptor that is handed over in the arguments names that pipe.
-/

namespace Bluetea.BlueTest

def EAGAIN : Int := 11

def EINVAL : Int := 22

/-- `sizeof(bluetest_data_t)` -/
def reportSize : ℕ := 16

/-- The reports in the pipe, oldest first. -/
structure Pipe where
  capacity : ℕ
  queued : List BluetestData

/-- A report is written whole or, when there is no room for it, not at all. -/
def Pipe.write (p : Pipe) (data : BluetestData) : Int × Pipe :=
  if reportSize * (p.queued.length + 1) ≤ p.capacity then
    (reportSize, { p with queued := p.queued ++ [data] })
  else (-EAGAIN, p)

/-- The static variables of the spawned process, and the pipe. -/
structure Child where
  gData : BluetestData
  willRunTest : Bool
  pipe : Pipe

def Child.start (capacity : ℕ) : Child := ⟨.zero, false, ⟨capacity, []⟩⟩

/-! ### The spawned process -/

/-- The loop over the entries, which is the same in both runs up to `__will_run_test`. -/
def testLoop (run : Bool) : List BluetestEntry → BluetestData → Child → BluetestData × Child
  | [], data, c => (data, c)
  | e :: entry, data, c =>
    let c := { c with willRunTest := run, gData := data }
    -- a non-zero value is only printed, and so is the error when the report does not get through
    let (_ret, data) := e.call c.willRunTest data
    let (_writeRet, pipe) := c.pipe.write data
    testLoop run entry data { c with pipe := pipe }

def initTest (entry : List BluetestEntry) (c : Child) : Int × Child :=
  let (data, c) := testLoop false entry .zero c
  (0, { c with gData := data })

def runTest (entry : List BluetestEntry) (c : Child) : Int × Child :=
  let (data, c) := testLoop true entry c.gData c
  (0, { c with gData := data })

/-- A string literal. -/
def literal (s : List Char) : List UInt8 := s.map Char.toUInt8

def doTest : List UInt8 := literal ['d', 'o', '_', 't', 'e', 's', 't']

def doTestInternal : CStr where
  bytes := literal ['d', 'o', '_', 't', 'e', 's', 't', '_', 'i', 'n', 't', 'e', 'r', 'n', 'a', 'l']
  ne_zero := CStr.ne_zero_of_all (by decide)

/-- `main`, with the arguments behind the name of the program; `handleUser` is what the action of
the user returns. -/
def main (args : List CStr) (testEntry : List BluetestEntry) (handleUser : Int) (c : Child) :
    Int × Child :=
  match args with
  | [] => (EINVAL, c)
  | arg :: args =>
    if CStr.strncmp 9 arg.bytes doTest = 0 then (handleUser, c)
    else if CStr.strncmp 17 arg.bytes doTestInternal.bytes = 0 then
      match args with
      | [_pipeWrFdStr] =>
        let (exitCode, c) := initTest testEntry c
        if exitCode ≠ 0 then (exitCode, c) else runTest testEntry c
      | _ => (EINVAL, c)
    else (EINVAL, c)

/-! ### The parent -/

/-- The wait status of a process that returned from `main`. -/
def exited (exitCode : Int) : ℕ := (exitCode % 256).toNat * 256

def wIfExited (wstatus : ℕ) : Bool := wstatus % 128 = 0

def wExitStatus (wstatus : ℕ) : ℕ := wstatus / 256 % 256

def wIfSignaled (wstatus : ℕ) : Bool := wstatus % 128 ≠ 0 ∧ wstatus % 128 ≠ 127

/-- What one turn of the loop over `poll` and `read` gets from the system. -/
inductive Answer
  | pollError (err : Int)
  | pollTimeout
  | readData (data : BluetestData)
  | readEof
  | readError (err : Int)

/-- The loop of `handle_wait`: the exit code and the last report; `none` when the answers end
before the loop does. -/
def handleWaitLoop (exitCode : Int) :
    List Answer → BluetestData → Option (Int × BluetestData)
  | [], _ => none
  | .pollError err :: _, data => some (err, data)
  | .pollTimeout :: _, data => some (exitCode, data)
  | .readData data :: answers, _ => handleWaitLoop exitCode answers data
  | .readEof :: _, data => some (exitCode, data)
  | .readError err :: answers, data =>
    if err ≠ EAGAIN then some (err, data) else handleWaitLoop exitCode answers data

def handleWait (wstatus : ℕ) (answers : List Answer) : Option Int :=
  let exitCode? : Option Int :=
    if wIfExited wstatus then some (wExitStatus wstatus)
    else if wIfSignaled wstatus then some wstatus
    else none
  match exitCode? with
  -- stopped or continued: the pipe is not read
  | none => some (-1)
  | some exitCode => do
    let (exitCode, data) ← handleWaitLoop exitCode answers .zero
    -- of all counters only `dyn_fail` is looked at
    return if exitCode = 0 ∧ data.dynFail > 0 then 1 else exitCode

/-- What the system answers to a parent that still holds the write end: the reports in order,
then nothing more. -/
def Pipe.answers (p : Pipe) : List Answer := p.queued.map .readData ++ [.pollTimeout]

/-- The exit code of a test when the spawned process runs to its end. -/
def verdict (capacity : ℕ) (pipeFdArg : CStr) (testEntry : List BluetestEntry) : Option Int :=
  let (exitCode, c) := main [doTestInternal, pipeFdArg] testEntry 0 (.start capacity)
  handleWait (exited exitCode) c.pipe.answers

end Bluetea.BlueTest
