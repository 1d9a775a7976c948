import Bluetea.BlueTest.Spawn
import Bluetea.CString.Atoi
import Bluetea.OldString.Copy

/-!
# TeaTest: the command line of valgrind

`main` and `spawn_valgrind` in `teatest/teatest.c`.  A test that is started with the path of valgrind and
its arguments starts valgrind with these, the test itself and the name of a descriptor.
-/

namespace Bluetea.TeaTest

open BlueTest (Fd storeAt toSize sizeofPtr snprintfD literal)

/-! ### `spawn_valgrind` -/

/-- The count that `spawn_valgrind` starts from: `argc` in 8 bits, and one more for the pipe. -/
def vlaArgcOf (argc : ℕ) : Int := ((UInt8.ofNat argc).toUInt32 &&& 0xff).toNat + 1

/-- `alloca` of `n` pointers, which are what is on the stack there. -/
def alloca (stack : ℕ → Option CStr) (n : ℕ) : List (Option CStr) := (List.range n).map stack

/-- `spawn_valgrind`, where it writes to `vla_argv`. -/
def buildVlaArgv (argv : List CStr) (pipeFdArg : CStr) (stack : ℕ → Option CStr) :
    Except Buffer.Fault (List (Option CStr)) := do
  let vlaArgc := vlaArgcOf argv.length
  let vlaArgv := alloca stack ((toSize (vlaArgc + 1) * sizeofPtr) / sizeofPtr).toNat
  -- `argv[argc]` is NULL
  let argv := argv.map some ++ [none]
  let bytes := toSize (vlaArgc - 2) * sizeofPtr
  let vlaArgv ← Buffer.memmoveFrom vlaArgv (argv.drop 1) (bytes / sizeofPtr).toNat
  let arg ← Buffer.load argv 0
  let vlaArgv ← storeAt vlaArgv (vlaArgc - 2) arg
  let vlaArgv ← storeAt vlaArgv (vlaArgc - 1) (some pipeFdArg)
  storeAt vlaArgv (vlaArgc - 0) none

/-- How a call of `spawn_valgrind` ends. -/
inductive Ending
  | returned (ret : Int)
  /-- By `execve`, in the child. -/
  | replaced
  /-- Not at all: `handle_wait` still waits. -/
  | waiting
  deriving DecidableEq

/-- What `fork` answers, and what then happens in the process that it answers to. -/
inductive Fork
  | failed (err : Int)
  /-- `execve` returns only when it fails. -/
  | child (execveErr : Option Int)
  /-- What `handle_wait` returns, if it does. -/
  | parent (ret : Option Int)

def Fork.ending : Fork → Ending
  | failed err => .returned err
  | child none => .replaced
  | child (some err) => .returned err
  | parent (some ret) => .returned ret
  | parent none => .waiting

/-- A call of `spawn_valgrind`, with the command line if it was written. -/
structure Spawned where
  vlaArgv : Option (List (Option CStr))
  ending : Ending

def spawnValgrind (pipe : Except Int (Fd × Fd)) (fork : Fork) (argv : List CStr)
    (stack : ℕ → Option CStr) : Except Buffer.Fault Spawned :=
  match pipe with
  | .error err => .ok ⟨none, .returned err⟩
  | .ok pipeFd => do
    -- whether `fd_set_nonblock` fails is in `ret`; the test is on `err`, which is 0
    let vlaArgv ← buildVlaArgv argv (snprintfD 16 pipeFd.2) stack
    return ⟨some vlaArgv, fork.ending⟩

/-! ### `main` -/

def slash : UInt8 := '/'.toUInt8

/-- `basename` of `libgen.h`: what is behind the last slash, but for slashes at the end. -/
def basename (path : List UInt8) : List UInt8 :=
  if path = [] then ['.'.toUInt8]
  else
    let path := (path.reverse.dropWhile (· == slash)).reverse
    if path = [] then [slash] else (path.reverse.takeWhile (· != slash)).reverse

def valgrind : List UInt8 := literal ['v', 'a', 'l', 'g', 'r', 'i', 'n', 'd']

/-- `sizeof(fpath)` -/
def sizeofFpath : UInt64 := 0xff

/-- The string in `fpath`, a buffer of zeros that `sane_strncpy` has copied `arg` to. -/
def fpathOf (arg : CStr) : Except Buffer.Fault (List UInt8) := do
  let fpath := List.replicate sizeofFpath.toNat 0
  let fpath ← OldString.saneStrncpy fpath (arg.bytes ++ [0]) sizeofFpath
  return fpath.takeWhile (· != 0)

/-- What a process does with its arguments. -/
inductive Action
  | valgrind
  /-- `init_test` and `run_test`, with `__pipe_wr_fd`. -/
  | test (pipeWrFd : Int)
  | invalid
  deriving DecidableEq

/-- `main`, up to the call it makes. -/
def action : List CStr → Except Buffer.Fault Action
  | _prog :: arg :: args => do
    let fpath ← fpathOf arg
    if basename fpath = valgrind then return .valgrind
    if args = [] then return .test (CStr.atoi arg.bytes)
    return .invalid
  | _ => return .invalid

end Bluetea.TeaTest
