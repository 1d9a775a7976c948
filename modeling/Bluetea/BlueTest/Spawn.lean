import Bluetea.BlueTest.Process
import Bluetea.CString.Atoi
import Bluetea.CString.Buffer
import Mathlib.Algebra.Group.Nat.Defs

/-!
# BlueTest: the command line of the spawned process

`spawn_test` in `bluetest/bluetest.c`, for the action of the user.  It builds the command line in an
array of 64 pointers, which has not been initialised.  What the system calls answer is an input.
-/

namespace Bluetea.BlueTest

/-- A file descriptor: an `int` that is not negative. -/
abbrev Fd := Fin (2 ^ 31)

/-- `char *fw_argv[0x3fu + 1u]` -/
abbrev FwArgv := { slots : List (Option CStr) // slots.length = 64 }

/-- What `fork` answers, and what then happens in the process that it answers to. -/
inductive Fork
  | failed (err : Int)
  /-- `execve` returns only when it fails. -/
  | child (execveErr : Option Int)
  /-- What `handle_wait` gets from the system. -/
  | parent (wstatus : ℕ) (answers : List Answer)

/-- The answers of the system calls: the value, or `errno`. -/
structure SpawnSystem where
  pipe : Except Int (Fd × Fd)
  fcntlGetfl : Fd → Except Int ℕ
  fcntlSetfl : Fd → ℕ → Except Int ℕ
  fork : Fork

def oNonblock : ℕ := 0x800

def fdSetNonblock (sys : SpawnSystem) (fd : Fd) : Int :=
  match sys.fcntlGetfl fd with
  | .error err => -err
  | .ok flags =>
    match sys.fcntlSetfl fd (flags ||| oNonblock) with
    | .error err => -err
    | .ok flags => flags

/-! ### The name of the descriptor -/

theorem decimal_ne_zero (n : ℕ) : ∀ b ∈ literal (Nat.toDigits 10 n), b ≠ 0 := by
  intro b hb
  obtain ⟨c, hc, rfl⟩ := List.mem_map.mp hb
  have hdigit := Nat.isDigit_of_mem_toDigits (by decide) (by decide) hc
  simp only [Char.isDigit, ge_iff_le, Bool.and_eq_true, decide_eq_true_eq,
    UInt32.le_iff_toNat_le] at hdigit
  change 48 ≤ c.val.toNat ∧ c.val.toNat ≤ 57 at hdigit
  have hval : c.toUInt8.toNat = c.val.toNat % 256 := UInt32.toNat_toUInt8 c.val
  intro hzero
  rw [hzero] at hval
  simp only [UInt8.toNat_zero] at hval
  omega

def decimal (n : ℕ) : CStr := ⟨literal (Nat.toDigits 10 n), decimal_ne_zero n⟩

/-- `snprintf(buf, size, "%d", n)` -/
def snprintfD (size n : ℕ) : CStr where
  bytes := (decimal n).bytes.take (size - 1)
  ne_zero b hb := (decimal n).ne_zero b (List.mem_of_mem_take hb)

/-! ### The command line -/

/-- An `int` as a `size_t`, or as an offset in an array. -/
def toSize (i : Int) : UInt64 := UInt64.ofInt i

def storeAt (b : List (Option CStr)) (i : Int) (x : Option CStr) :
    Except Buffer.Fault (List (Option CStr)) :=
  Buffer.store b (toSize i).toNat x

/-- `sizeof(*argv)` -/
def sizeofPtr : UInt64 := 8

/-- The count that `spawn_test` starts from: `argc` in 8 bits, then in 6, and one more for the
pipe. -/
def fwArgcOf (argc : ℕ) : Int := ((UInt8.ofNat argc).toUInt32 &&& 0x3f).toNat + 1

/-- `spawn_test`, where it writes to `fw_argv`. -/
def buildFwArgv (argv : List CStr) (pipeFdArg : CStr) (fwArgv : List (Option CStr)) :
    Except Buffer.Fault (List (Option CStr)) := do
  let fwArgc := fwArgcOf argv.length
  -- `argv[argc]` is NULL
  let argv := argv.map some ++ [none]
  let bytes := toSize (fwArgc - 3) * sizeofPtr
  let fwArgv ← Buffer.memmoveFrom fwArgv (argv.drop 2) (bytes / sizeofPtr).toNat
  let arg ← Buffer.load argv 0
  let fwArgv ← storeAt fwArgv (fwArgc - 3) arg
  let fwArgv ← storeAt fwArgv (fwArgc - 2) (some doTestInternal)
  let fwArgv ← storeAt fwArgv (fwArgc - 1) (some pipeFdArg)
  storeAt fwArgv (fwArgc - 0) none

/-- How a call of `spawn_test` ends. -/
inductive Ending
  | returned (ret : Int)
  /-- By `execve`, in the child. -/
  | replaced
  /-- Not at all: `handle_wait` still waits. -/
  | waiting

def Fork.ending : Fork → Ending
  | failed err => .returned err
  | child none => .replaced
  -- the exit code of a child that could not be replaced is 0
  | child (some _err) => .returned 0
  | parent wstatus answers =>
    match handleWait wstatus answers with
    | some ret => .returned ret
    | none => .waiting

/-- A call of `spawn_test`, with the command line if it was written. -/
structure Spawned where
  fwArgv : Option (List (Option CStr))
  ending : Ending

def spawnTest (sys : SpawnSystem) (argv : List CStr) (fwArgv : FwArgv) :
    Except Buffer.Fault Spawned :=
  match sys.pipe with
  | .error err => .ok ⟨none, .returned err⟩
  | .ok pipeFd =>
    let err := fdSetNonblock sys pipeFd.1
    if err < 0 then .ok ⟨none, .returned (-err)⟩
    else
      let err := fdSetNonblock sys pipeFd.2
      if err < 0 then .ok ⟨none, .returned (-err)⟩
      else do
        let fwArgv ← buildFwArgv argv (snprintfD 16 pipeFd.2) fwArgv
        return ⟨some fwArgv, sys.fork.ending⟩

/-- The arguments of a program that is started with this array. -/
def execArgs (fwArgv : List (Option CStr)) : List CStr :=
  (fwArgv.takeWhile Option.isSome).filterMap id

/-! ### `main`

The user runs a test with `do_test`, and this process starts the same program again with
`do_test_internal` and the name of a descriptor.  Arguments behind `do_test` name another program,
such as valgrind, that is started in front of the test. -/

/-- What a process does with its arguments. -/
inductive Action
  /-- `handle_user` -/
  | user
  /-- `init_test` and `run_test`, with `__parent_pipe_wr_fd`. -/
  | framework (pipeWrFd : Int)
  | invalid
  deriving DecidableEq

/-- With the arguments behind `do_test_internal`: `argc` has to be 3. -/
def frameworkAction : List CStr → Action
  | [pipeWrFdStr] => .framework (CStr.atoi pipeWrFdStr.bytes)
  | _ => .invalid

/-- `main`, up to the call it makes. -/
def action : List CStr → Action
  | _prog :: arg :: args =>
    if CStr.strncmp 9 arg.bytes doTest = 0 then .user
    else if CStr.strncmp 17 arg.bytes doTestInternal.bytes = 0 then frameworkAction args
    else .invalid
  | _ => .invalid

end Bluetea.BlueTest
