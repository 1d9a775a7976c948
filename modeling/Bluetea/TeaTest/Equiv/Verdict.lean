import Bluetea.TeaTest.Equiv.System

/-!
# What the parent returns

* `teaTest_verdict`: whatever strikes, the parent returns zero only for a suite whose checks all
  pass, and without strikes it returns what `run_test` does, with all counters.
* `teaTest_crash`: a crash is never taken for a success, and the parent gets the counters as they
  were when it struck.

Both hold when valgrind puts its own exit code in place of the one of the tests.
-/

namespace Bluetea.TeaTest

open BlueTest (exited wIfExited wIfSignaled wExitStatus)

variable {calm : Prop} {tests : List TestEntry} {capacity : ℕ} {s s' : State}

/-- The parent sees the exit codes that occur as they are. -/
theorem wExitStatus_exited {code : Int} (h : code = 0 ∨ code = 1 ∨ code = valgrindError) :
    (wExitStatus (exited code) : Int) = code := by
  rcases h with rfl | rfl | rfl <;> decide

theorem wIfExited_exited (code : Int) : wIfExited (exited code) = true := by
  rw [wIfExited, decide_eq_true_eq, exited]
  apply Nat.mod_eq_zero_of_dvd
  exact Nat.dvd_trans (by decide : 128 ∣ 256) (Nat.dvd_mul_left 256 _)

/-- A process is not both killed and exited. -/
theorem not_wIfSignaled {wstatus : ℕ} (h : wIfExited wstatus = true) :
    ¬ wIfSignaled wstatus = true := by
  rw [wIfExited, decide_eq_true_eq] at h
  rw [wIfSignaled, decide_eq_true_eq]
  exact fun hsig => hsig.1 h

theorem ret?_eq_some {q : Parent} {ret : Int} (h : q.ret? = some ret) :
    (∃ buf, q = .finished ret buf) ∨ (q = .unknownError ∧ ret = -1) := by
  cases q with
  | waiting => cases h
  | reading code buf => cases h
  | finished code buf =>
    obtain rfl := Option.some.inj h
    exact Or.inl ⟨buf, rfl⟩
  | unknownError => exact Or.inr ⟨rfl, (Option.some.inj h).symm⟩

theorem PipeInv.finished (h : PipeInv capacity s) {code : Int} {buf : Option Point}
    (hret : s.parent = .finished code buf) : Status s code ∧ buf = s.sent.getLast? := by
  have hparent := h.parent
  rw [ParentInv, hret] at hparent
  exact hparent

/-- What an exit code of the parent comes from. -/
theorem Inv.finished (h : Inv calm tests capacity s) {code : Int} {buf : Option Point}
    (hret : s.parent = .finished code buf) :
    buf = s.sent.getLast? ∧ ∃ code', Returned calm tests code' s.globals s.sent ∧
      (code = code' ∨ code = valgrindError) := by
  obtain ⟨⟨wstatus, hphase, hw, rfl⟩, hbuf⟩ := h.pipe.finished hret
  refine ⟨hbuf, ?_⟩
  have hchild := h.child
  rw [ChildInv, hphase] at hchild
  rcases hchild with ⟨code', hcode, hreturned⟩ | ⟨hsig, -⟩
  · refine ⟨code', hreturned, ?_⟩
    rcases hcode with rfl | rfl
    · apply Or.inl
      apply wExitStatus_exited
      exact hreturned.zero_or_one.imp id Or.inl
    · apply Or.inr
      apply wExitStatus_exited
      exact Or.inr (Or.inr rfl)
  · exact absurd hsig (not_wIfSignaled hw)

/-- Without strikes `wait` finds the process exited. -/
theorem Inv.ne_unknownError (h : Inv True tests capacity s) : s.parent ≠ .unknownError := by
  intro hq
  have hparent := h.pipe.parent
  rw [ParentInv, hq] at hparent
  obtain ⟨wstatus, hphase, hw⟩ := hparent
  have hchild := h.child
  rw [ChildInv, hphase] at hchild
  rcases hchild with ⟨code, rfl | rfl, -⟩ | ⟨-, hcalm⟩
  · exact hw (wIfExited_exited code)
  · exact hw (wIfExited_exited valgrindError)
  · exact hcalm trivial

/-- What happens once the handler runs with the counters `g`. -/
def CrashInv (g : Globals) (s : State) : Prop :=
  s.globals = g ∧
  match s.phase with
  | .handler _ => True
  | .backtrace _ => s.sent.getLast? = some g.data
  | .returned code => code = 1 ∧ s.sent.getLast? = some g.data
  | .ended wstatus => wIfSignaled wstatus ∨
      ((wstatus = exited 1 ∨ wstatus = exited valgrindError) ∧ s.sent.getLast? = some g.data)
  | _ => False

variable {g : Globals}

theorem CrashInv.step (h : CrashInv g s) (hstep : Step tests s s') : CrashInv g s' := by
  obtain ⟨rfl, h⟩ := h
  cases hstep with
  | enter => exact h.elim
  | check => exact h.elim
  | leave => exact h.elim
  | send => exact h.elim
  | endInit => exact h.elim
  | endRun => exact h.elim
  -- the report of the handler is the last that is sent; nothing is sent behind it
  | sendCrash hroom => exact ⟨rfl, List.getLast?_concat⟩
  | raise hw => exact ⟨rfl, Or.inl hw⟩
  | exitHandler => exact ⟨rfl, rfl, h⟩
  | exit =>
    obtain ⟨rfl, h⟩ := h
    exact ⟨rfl, Or.inr ⟨Or.inl rfl, h⟩⟩
  | exitValgrind => exact ⟨rfl, Or.inr ⟨Or.inr rfl, h.2⟩⟩
  | wait => exact ⟨rfl, h⟩
  | read => exact ⟨rfl, h⟩
  | timeout => exact ⟨rfl, h⟩

theorem CrashInv.strike (h : CrashInv g s) (hstrike : Strike s s') : CrashInv g s' := by
  obtain ⟨rfl, h⟩ := h
  cases hstrike with
  | crash => exact h.elim
  | kill hrun hw => exact ⟨rfl, Or.inl hw⟩

theorem CrashInv.runs (h : CrashInv g s) (hruns : Runs tests s s') : CrashInv g s' := by
  induction hruns with
  | refl => exact h
  | tail _ hstep ih => exact hstep.elim ih.step ih.strike

/-- What the parent gets from a crash. -/
theorem CrashInv.finished (h : CrashInv g s) (hinv : Inv calm tests capacity s) {code : Int}
    {buf : Option Point} (hret : s.parent = .finished code buf) :
    (code = 1 ∨ code = valgrindError) ∧ buf = some g.data := by
  obtain ⟨⟨wstatus, hphase, hw, rfl⟩, hbuf⟩ := hinv.pipe.finished hret
  have hcrash := h.2
  rw [hphase] at hcrash
  rcases hcrash with hsig | ⟨rfl | rfl, hlast⟩
  · exact absurd hsig (not_wIfSignaled hw)
  · exact ⟨Or.inl (wExitStatus_exited (Or.inr (Or.inl rfl))), hbuf.trans hlast⟩
  · exact ⟨Or.inr (wExitStatus_exited (Or.inr (Or.inr rfl))), hbuf.trans hlast⟩

/-- **A crash in a call**, behind the checks `done`: the parent fails, and if it prints anything,
these are the counters with `done` counted. -/
theorem teaTest_crash {run fail : Bool} {entry : List TestEntry} {todo : List Check} {ret : Int}
    {sig : ℕ} (h : Reachable tests capacity s) (hcall : s.phase = .call run entry fail todo ret)
    (hsig : sig = SIGSEGV ∨ sig = SIGABRT) :
    ∃ front e done, tests = front ++ e :: entry ∧ e.checks run = done ++ todo ∧
      ∀ s' code, Runs tests { s with phase := .handler sig } s' → s'.parent.ret? = some code →
        code = -1 ∨ (code = 1 ∨ code = valgrindError) ∧
          s'.parent = .finished code (some (tally tests run (checks run front ++ done)).data) := by
  obtain ⟨ph, g, p, sent, q⟩ := s
  cases hcall
  obtain ⟨front, e, done, htests, he, hg, -⟩ := h.inv.child
  have hg : g = tally tests run (checks run front ++ done) := hg
  subst hg
  refine ⟨front, e, done, htests, he, fun s' code hruns hret => ?_⟩
  -- from here on the counters stay as they are, and the report of the handler is the last one
  have hcrash : CrashInv (tally tests run (checks run front ++ done)) s' :=
    CrashInv.runs ⟨rfl, trivial⟩ hruns
  have hinv : Inv False tests capacity s' := (h.inv.strike (.crash hsig)).runs hruns
  rcases ret?_eq_some hret with ⟨buf, hq⟩ | ⟨-, hneg⟩
  · obtain ⟨hcode, rfl⟩ := hcrash.finished hinv hq
    exact Or.inr ⟨hcode, hq⟩
  · exact Or.inl hneg

/-- Two entries, of one check and of two. -/
def twoEntries : List TestEntry :=
  [⟨[.assert true], [.assert true]⟩,
    ⟨[.assert true, .assertS false], [.assert true, .assertS true]⟩]

/-- The state of the real run behind the first check of the second entry, but for the phase: three
checks were counted, two have passed and three reports are in the pipe. -/
def secondEntry (ph : Phase) : State :=
  ⟨ph, ⟨true, 3, 2⟩, ⟨4096, [⟨1, 0⟩, ⟨3, 0⟩, ⟨3, 1⟩]⟩, [⟨1, 0⟩, ⟨3, 0⟩, ⟨3, 1⟩], .waiting⟩

theorem steps_secondEntry :
    Steps twoEntries (.start twoEntries 4096)
      (secondEntry (.call true [] false [.assertS true] 0)) := by
  have hdry : Steps twoEntries (.start twoEntries 4096)
      ⟨.loop true twoEntries false, ⟨true, 3, 0⟩, ⟨4096, [⟨1, 0⟩, ⟨3, 0⟩]⟩, [⟨1, 0⟩, ⟨3, 0⟩],
        .waiting⟩ :=
    .head .enter <| .head .check <| .head .leave <| .head (.send (by decide)) <|
      .head .enter <| .head .check <| .head .check <| .head .leave <| .head (.send (by decide)) <|
      .head .endInit .refl
  apply hdry.trans
  exact .head .enter <| .head .check <| .head .leave <| .head (.send (by decide)) <|
    .head .enter <| .head .check .refl

/-- The handler has sent its report, no symbols are found, and the parent reads all four. -/
theorem runs_handler :
    Runs twoEntries (secondEntry (.handler SIGSEGV))
      ⟨.ended (exited 1), ⟨true, 3, 2⟩, ⟨4096, []⟩, [⟨1, 0⟩, ⟨3, 0⟩, ⟨3, 1⟩, ⟨3, 2⟩],
        .finished 1 (some ⟨3, 2⟩)⟩ :=
  Steps.runs <| .head (.sendCrash (by decide)) <| .head .exitHandler <| .head .exit <|
    .head .wait <| .head .read <| .head .read <| .head .read <| .head .read <| .head .timeout .refl

/-- The first check of the second entry is in the counters that the parent prints. -/
theorem teaTest_crash_second :
    (∃ s', Runs twoEntries (secondEntry (.handler SIGSEGV)) s' ∧ s'.parent.ret? = some 1) ∧
    ∀ s' code, Runs twoEntries (secondEntry (.handler SIGSEGV)) s' → s'.parent.ret? = some code →
      code = -1 ∨ (code = 1 ∨ code = valgrindError) ∧
        s'.parent = .finished code (some ⟨3, 2⟩) := by
  refine ⟨⟨_, runs_handler, rfl⟩, ?_⟩
  obtain ⟨front, e, done, htests, he, hcrash⟩ :=
    teaTest_crash (Steps.runs steps_secondEntry) rfl (Or.inl rfl)
  -- the entry and the checks behind the crash are given, and with them those in front
  obtain ⟨rfl, he'⟩ := List.append_inj' (show [_] ++ [_] = front ++ [e] from htests) rfl
  obtain rfl := List.singleton_inj.mp he'
  obtain ⟨rfl, -⟩ := List.append_inj' (show [_] ++ [_] = done ++ [_] from he) rfl
  exact hcrash

end Bluetea.TeaTest
