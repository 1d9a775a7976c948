import Bluetea.Monitor.Basic

/-!
# Two threads that count under a lock

`tests/004_mutex/004_mutex.c`, the test `basic_mutex`, and the functions of `lib/mutex.h` that it
calls.  Both threads go through `rounds` rounds; in each they take the lock and add one to `num`
`steps` times.  The source has 10000 for both.  To add one is to read `num` and then to write it.

The calls to the pthread functions succeed, and accesses to `start` take effect in one order.
-/

namespace Bluetea.Mutex

open Monitor

/-- The thread of the test and the one it creates. -/
inductive Thread
  | main
  | child
  deriving DecidableEq, Repr

theorem mem_threads (t : Thread) : t ∈ [Thread.main, .child] := by
  cases t <;> simp

namespace BasicMutex

/-- `struct basic_mutex_st`, with the number that `arg` points to.  Of the lock it has `init`. -/
structure Data where
  start : Bool
  lockInit : Bool
  num : UInt64
  deriving DecidableEq, Repr

/-- Where a thread is, with its loop counters and the number it has read. -/
inductive Loc
  /-- `bt_mutex_init(&data.lock, NULL)` -/
  | init
  | create
  /-- `while (!data.start)` -/
  | await
  /-- The thread function begins. -/
  | begin
  /-- `i < rounds`, then `bt_mutex_lock` -/
  | outer (i : ℕ)
  /-- `j < steps`, then a read of `num`, or `bt_mutex_unlock` -/
  | inner (i j : ℕ)
  | store (i j : ℕ) (v : UInt64)
  | join
  /-- `TQ_ASSERT(num == 2 * rounds * steps)` -/
  | check
  /-- `bt_mutex_destroy(&data.lock)` -/
  | destroy
  | exit
  deriving DecidableEq, Repr

/-- `bt_mutex_lock(&data->lock)` -/
def btMutexLock (d : Data) (l : Loc) : Instr Thread Loc Data := if d.lockInit then .lock l else .fail

/-- `bt_mutex_unlock(&data->lock)` -/
def btMutexUnlock (d : Data) (l : Loc) : Instr Thread Loc Data :=
  if d.lockInit then .unlock l else .fail

/-- Behind the loop over the rounds. -/
def afterLoop : Thread → Loc
  | .main => .join
  | .child => .exit

/-- The test and its thread function. -/
def code (rounds steps : ℕ) (t : Thread) (l : Loc) (d : Data) : Instr Thread Loc Data :=
  match l with
  | .init => .go { d with lockInit := true } .create
  | .create => .create .child .await
  | .await => .go d (if d.start then .outer 0 else .await)
  | .begin => .go { d with start := true } (.outer 0)
  | .outer i => if i < rounds then btMutexLock d (.inner i 0) else .go d (afterLoop t)
  | .inner i j =>
    if j < steps then .go d (.store i j d.num) else btMutexUnlock d (.outer (i + 1))
  | .store i j v => .go { d with num := v + 1 } (.inner i (j + 1))
  | .join => .join .child .check
  | .check => if d.num = UInt64.ofNat (rounds * steps * 2) then .go d .destroy else .fail
  | .destroy => .go { d with lockInit := false } .exit
  | .exit => .exit

/-- The test begins; of the lock nothing is known. -/
def start (lockInit : Bool) : State Thread Loc Data where
  loc t := match t with
    | .main => .init
    | .child => .begin
  status t := match t with
    | .main => .running
    | .child => .fresh
  owner := none
  data := ⟨false, lockInit, 0⟩

end BasicMutex

end Bluetea.Mutex
