import Bluetea.BlueTest.Process
import Bluetea.CString.Basic
import Bluetea.Locks.Basic

/-!
# Printing from several threads

`print.c` on x86-64.  Each of `__pr_notice`, `__pr_error` and `__pr_emerg` writes a line in three pieces,
with `pr_print` taken, and has `get_time` make the time stamp, with `get_time_mt` taken too.

`localtime` and `asctime` return pointers to memory that all threads share (`Data`).  What they compute
is a parameter, and so is what `time` returns, call by call.
-/

namespace Bluetea.Print

open BlueTest (literal)

/-- The locks. -/
inductive Mutex
  | getTimeMt
  | prPrint
  deriving DecidableEq

/-- A call of `__pr_notice`, `__pr_error` or `__pr_emerg`. -/
structure Call where
  /-- What the first `printf` writes behind the time. -/
  label : List UInt8
  /-- What `vprintf` writes for the arguments. -/
  text : List UInt8

def prNotice (text : List UInt8) : Call := ⟨[], text⟩

def prError (text : List UInt8) : Call := ⟨literal ['E', 'r', 'r', 'o', 'r', ':', ' '], text⟩

def prEmerg (text : List UInt8) : Call :=
  ⟨literal ['E', 'm', 'e', 'r', 'g', 'e', 'n', 'c', 'y', ':', ' '], text⟩

/-- A string that `asctime` returns, which is not empty. -/
structure TimeChr where
  str : CStr
  strlen_ne_zero : str.strlen ≠ 0

/-- The functions of `time.h`, on times `τ` and broken-down times `σ`. -/
structure Libc (τ σ : Type*) where
  /-- What `time` returns when it is called for the `n`-th time. -/
  time : ℕ → τ
  localtime : τ → σ
  asctime : σ → TimeChr

/-- The string in `buf`: `len` is less than 32, so the terminator has room. -/
def stamp (timeChr : TimeChr) : List UInt8 :=
  let len := min timeChr.str.strlen 32 - 1
  timeChr.str.bytes.take len

/-! ### What is written -/

/-- What the first `printf` writes. -/
def Call.head (c : Call) (buf : List UInt8) : List UInt8 :=
  literal ['['] ++ buf ++ literal [']', ' '] ++ c.label

def newline : List UInt8 := literal ['\n']

/-- A whole line. -/
def Call.line (c : Call) (buf : List UInt8) : List UInt8 := c.head buf ++ c.text ++ newline

/-! ### The code of a thread -/

/-- Where a thread is in a call, with its local variables. -/
inductive Pc (τ : Type*)
  /-- In `pthread_mutex_busy_lock`, in front of `pthread_mutex_trylock`. -/
  | busyLock (m : Mutex) (tryNum : ℕ)
  /-- In front of `pthread_mutex_lock`. -/
  | mutexLock (m : Mutex)
  | time
  | localtime (rawtime : τ)
  | asctime
  | memcpy
  | unlockTime (buf : List UInt8)
  | printf (buf : List UInt8)
  | vprintf (buf : List UInt8)
  | putchar (buf : List UInt8)
  | unlockPrint

/-- A thread with the calls that it has still to make, behind the one that it is in. -/
inductive Loc (τ : Type*)
  | idle (todo : List Call)
  | call (pc : Pc τ) (c : Call) (todo : List Call)

/-- What the threads share. -/
structure Data (σ : Type*) where
  /-- How often `time` has been called. -/
  ticks : ℕ
  /-- What `localtime` points to. -/
  timeinfo : σ
  /-- What `asctime` points to. -/
  timeChr : TimeChr
  stdout : List UInt8

/-- How often a lock is tried again. -/
def busyTries : ℕ := 5000

/-- Behind `pthread_mutex_busy_lock`: `get_time` is called for the arguments of `printf`. -/
def acquired {τ : Type*} : Mutex → Pc τ
  | .prPrint => .busyLock .getTimeMt busyTries
  | .getTimeMt => .time

/-- Behind a `pthread_mutex_trylock` that failed. -/
def retry {τ : Type*} (m : Mutex) : ℕ → Pc τ
  | 0 => .mutexLock m
  | tryNum + 1 => .busyLock m tryNum

variable {τ σ : Type*}

def code (libc : Libc τ σ) : Loc τ → Data σ → Locks.Instr Mutex (Loc τ) (Data σ)
  | .idle [], _ => .exit
  | .idle (c :: todo), d => .go d (.call (.busyLock .prPrint busyTries) c todo)
  | .call (.busyLock m tryNum) c todo, _ =>
    .trylock m (.call (acquired m) c todo) (.call (retry m tryNum) c todo)
  | .call (.mutexLock m) c todo, _ => .lock m (.call (acquired m) c todo)
  | .call .time c todo, d =>
    .go { d with ticks := d.ticks + 1 } (.call (.localtime (libc.time d.ticks)) c todo)
  | .call (.localtime rawtime) c todo, d =>
    .go { d with timeinfo := libc.localtime rawtime } (.call .asctime c todo)
  | .call .asctime c todo, d =>
    .go { d with timeChr := libc.asctime d.timeinfo } (.call .memcpy c todo)
  | .call .memcpy c todo, d => .go d (.call (.unlockTime (stamp d.timeChr)) c todo)
  | .call (.unlockTime buf) c todo, _ => .unlock .getTimeMt (.call (.printf buf) c todo)
  | .call (.printf buf) c todo, d =>
    .go { d with stdout := d.stdout ++ c.head buf } (.call (.vprintf buf) c todo)
  | .call (.vprintf buf) c todo, d =>
    .go { d with stdout := d.stdout ++ c.text } (.call (.putchar buf) c todo)
  | .call (.putchar _) c todo, d =>
    .go { d with stdout := d.stdout ++ newline } (.call .unlockPrint c todo)
  | .call .unlockPrint _ todo, _ => .unlock .prPrint (.idle todo)

/-- Threads that have all their calls to make, and nothing is written yet. -/
def start {ι : Type*} (calls : ι → List Call) (timeinfo : σ) (timeChr : TimeChr) :
    Locks.State ι Mutex (Loc τ) (Data σ) where
  loc t := .idle (calls t)
  owner _ := none
  data := ⟨0, timeinfo, timeChr, []⟩

/-- A signal strikes thread `t`.  Its handler prints `handler`, with what the thread has locked still
locked, and does not return to it. -/
def strike {ι : Type*} [DecidableEq ι] (s : Locks.State ι Mutex (Loc τ) (Data σ)) (t : ι)
    (handler : List Call) : Locks.State ι Mutex (Loc τ) (Data σ) :=
  s.jump t (.idle handler)

end Bluetea.Print
