import Bluetea.Mutex.BasicMutex

/-!
# Two threads that take turns

`tests/004_mutex/004_mutex.c`, the test `basic_cond`, and the functions of `lib/mutex.h` that it
calls.  The thread counts to `total`, then the test to `2 * total`, then the thread to `3 * total`;
each waits for its turn on the condition.  In the source `total` is 1000000.

The calls to the pthread functions succeed, and accesses to `start` take effect in one order.
-/

namespace Bluetea.Mutex.BasicCond

open Monitor

/-- `struct basic_cond_st`, of the lock and the condition their `init`. -/
structure Data where
  start : Bool
  lockInit : Bool
  condInit : Bool
  condVar : UInt64
  deriving DecidableEq, Repr

/-- The three loops that count: of the thread, of the test, and of the thread again. -/
inductive Turn
  | first
  | second
  | third
  deriving DecidableEq, Repr

/-- Where a thread is, with its loop counter and the number it has read. -/
inductive Loc
  /-- `bt_cond_init(&data.cond, NULL)` -/
  | condInit
  /-- `bt_mutex_init(&data.lock, NULL)` -/
  | init
  | create
  /-- `while (!data.start)` -/
  | await
  /-- The thread function begins. -/
  | begin
  /-- `bt_mutex_lock` -/
  | lock (p : Turn)
  /-- `while (data.cond_var != ..)`, with `bt_cond_wait` -/
  | test (p : Turn)
  /-- The assertion in front of the loop. -/
  | before (p : Turn)
  /-- `i <= total`, then a read of `cond_var` -/
  | incr (p : Turn) (i : ℕ)
  | store (p : Turn) (i : ℕ) (v : UInt64)
  /-- The assertion behind the loop, and `bt_mutex_unlock` -/
  | after (p : Turn)
  /-- `bt_cond_signal` -/
  | signal (p : Turn)
  | join
  /-- `TQ_ASSERT(data.cond_var == 3 * total)` -/
  | check
  /-- `bt_cond_destroy(&data.cond)` -/
  | condDestroy
  /-- `bt_mutex_destroy(&data.lock)` -/
  | destroy
  | exit
  deriving DecidableEq, Repr

def btMutexLock (d : Data) (l : Loc) : Instr Thread Loc Data := if d.lockInit then .lock l else .fail

def btMutexUnlock (d : Data) (l : Loc) : Instr Thread Loc Data :=
  if d.lockInit then .unlock l else .fail

def btCondWait (d : Data) (l : Loc) : Instr Thread Loc Data :=
  if d.condInit then if d.lockInit then .wait l else .fail else .fail

def btCondSignal (d : Data) (l : Loc) : Instr Thread Loc Data :=
  if d.condInit then .signal l else .fail

/-- What a turn waits for. -/
def goal (total : ℕ) : Turn → ℕ
  | .first => 0
  | .second => total
  | .third => 2 * total

/-- The first turn does not wait, and asserts nothing. -/
def afterLock : Turn → Loc
  | .first => .incr .first 1
  | p => .test p

def afterUnlock : Turn → Loc
  | .third => .exit
  | p => .signal p

def afterSignal : Turn → Loc
  | .first => .lock .third
  | .second => .join
  | .third => .exit

/-- The test and its thread function. -/
def code (total : ℕ) (_ : Thread) (l : Loc) (d : Data) : Instr Thread Loc Data :=
  match l with
  | .condInit => .go { d with condInit := true } .init
  | .init => .go { d with lockInit := true } .create
  | .create => .create .child .await
  | .await => .go d (if d.start then .lock .second else .await)
  | .begin => .go { d with start := true } (.lock .first)
  | .lock p => btMutexLock d (afterLock p)
  | .test p =>
    if d.condVar ≠ UInt64.ofNat (goal total p) then btCondWait d (.test p) else .go d (.before p)
  | .before p => if d.condVar = UInt64.ofNat (goal total p) then .go d (.incr p 1) else .fail
  | .incr p i => .go d (if i ≤ total then .store p i d.condVar else .after p)
  | .store p i v => .go { d with condVar := v + 1 } (.incr p (i + 1))
  | .after p =>
    if p = .first ∨ d.condVar = UInt64.ofNat (goal total p + total) then
      btMutexUnlock d (afterUnlock p)
    else .fail
  | .signal p => btCondSignal d (afterSignal p)
  | .join => .join .child .check
  | .check => if d.condVar = UInt64.ofNat (3 * total) then .go d .condDestroy else .fail
  | .condDestroy => .go { d with condInit := false } .destroy
  | .destroy => .go { d with lockInit := false } .exit
  | .exit => .exit

/-- The test begins, with its data cleared. -/
def start : State Thread Loc Data where
  loc t := match t with
    | .main => .condInit
    | .child => .begin
  status t := match t with
    | .main => .running
    | .child => .fresh
  owner := none
  data := ⟨false, false, false, 0⟩

end Bluetea.Mutex.BasicCond
