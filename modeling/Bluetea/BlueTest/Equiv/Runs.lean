import Bluetea.BlueTest.Equiv.System

/-!
# Runs of the two processes

Every point inside a call is reached in some run (`exists_call`), and so is the end of
`handle_wait` (`exists_finished`).  When the entries are made of checks, the loops of the
sequential model are runs of this system (`steps_testLoop`).
-/

namespace Bluetea.BlueTest

variable {κ : Type*} (move : Bool → Frame → κ → Frame) (suite : List (Bool → List κ)) (run : Bool)
variable {entry : List (Bool → List κ)} {c : Child} {sent : List BluetestData} {p : Parent}
variable {capacity : ℕ}

theorem steps_call (done todo : List κ) (f : Frame) :
    Steps move suite ⟨.call run entry (done ++ todo) f, c, sent, p⟩
      ⟨.call run entry todo (done.foldl (move c.willRunTest) f), c, sent, p⟩ := by
  induction done generalizing f with
  | nil => exact .refl
  | cons k done ih => exact .head .move (ih (move c.willRunTest f k))

/-- One turn of the loop over the entries. -/
theorem steps_entry (e : Bool → List κ) (data : BluetestData) :
    Steps move suite ⟨.loop run (e :: entry) data, c, sent, p⟩
      ⟨.loop run entry (callData move run data e),
        { c with willRunTest := run, gData := data }.report (callData move run data e),
        sent ++ [callData move run data e], p⟩ := by
  have hcall : Steps move suite
      ⟨.call run entry (e run ++ []) ⟨0, data⟩, { c with willRunTest := run, gData := data },
        sent, p⟩ _ := steps_call move suite run (e run) [] ⟨0, data⟩
  rw [List.append_nil] at hcall
  exact .head .enter (hcall.tail .leave)

theorem steps_loop (front rest : List (Bool → List κ)) (c : Child) (sent : List BluetestData)
    (data : BluetestData) :
    ∃ c', Steps move suite ⟨.loop run (front ++ rest) data, c, sent, p⟩
      ⟨.loop run rest (after move run front data), c', sent ++ afterEach move run front data,
        p⟩ := by
  induction front generalizing data c sent with
  | nil => exact ⟨c, by rw [afterEach, List.append_nil]; exact .refl⟩
  | cons e front ih =>
    obtain ⟨c', hsteps⟩ := ih _ (sent ++ [callData move run data e]) (callData move run data e)
    rw [List.append_assoc] at hsteps
    exact ⟨c', (steps_entry move suite run e data).trans hsteps⟩

/-- The dry run, and the real run up to any entry. -/
theorem exists_loop {front rest : List (Bool → List κ)} (hsuite : suite = front ++ rest) :
    ∃ c, Reachable move suite capacity ⟨.loop run rest (tally move suite run front), c,
      reportsTo move suite run front, .waiting⟩ := by
  cases run with
  | false =>
    obtain ⟨c, hsteps⟩ := steps_loop move suite false (p := .waiting) front rest
      (.start capacity) [] .zero
    rw [← hsuite] at hsteps
    exact ⟨c, hsteps⟩
  | true =>
    obtain ⟨c, hdry⟩ := steps_loop move suite false (p := .waiting) suite [] (.start capacity) []
      .zero
    rw [List.append_nil] at hdry
    obtain ⟨c', hreal⟩ := steps_loop move suite true (p := .waiting) front rest
      { c with gData := after move false suite .zero }
      ([] ++ afterEach move false suite .zero) (after move false suite .zero)
    rw [← hsuite] at hreal
    exact ⟨c', (hdry.tail .endInit).trans hreal⟩

/-- Any point inside a call, in either run. -/
theorem exists_call {front rest : List (Bool → List κ)} {e : Bool → List κ}
    {done todo : List κ} (hsuite : suite = front ++ e :: rest) (he : e run = done ++ todo) :
    ∃ s f, Reachable move suite capacity s ∧ s.phase = .call run rest todo f := by
  obtain ⟨c, hloop⟩ := exists_loop move suite run hsuite
  have henter := Relation.ReflTransGen.tail hloop .enter
  rw [he] at henter
  exact ⟨_, _, henter.trans (steps_call move suite run done todo _), rfl⟩

/-- The parent reads what there is and is done. -/
theorem steps_drain (ph : Phase κ) (code : Int) (c : Child) (data : BluetestData) :
    ∃ c', Steps move suite ⟨ph, c, sent, .reading code data⟩
      ⟨ph, c', sent, .finished code (c.pipe.queued.getLastD data)⟩ := by
  obtain ⟨g, w, cap, queued⟩ := c
  show ∃ c', Steps move suite _ ⟨ph, c', sent, .finished code (queued.getLastD data)⟩
  induction queued generalizing data with
  | nil => exact ⟨_, .single .timeout⟩
  | cons d queued ih =>
    obtain ⟨c', hsteps⟩ := ih d
    rw [List.getLastD_cons]
    exact ⟨c', .head .read hsteps⟩

theorem exists_finished (capacity : ℕ) :
    ∃ s code data, Reachable move suite capacity s ∧ s.phase = .returned 0 ∧
      s.parent = .finished code data := by
  obtain ⟨c, hloop⟩ := exists_loop move suite true (List.append_nil suite).symm
  have hwait := (Relation.ReflTransGen.tail hloop .endRun).tail (.wait rfl)
  obtain ⟨c', hdrain⟩ := steps_drain move suite (.returned 0) (exitCode (exited 0)) _ .zero
  exact ⟨_, _, _, hwait.trans hdrain, rfl, rfl⟩

/-- The loop over the entries, in the sequential model and step by step. -/
theorem steps_testLoop (suite : List (Bool → List Check)) (entry : List BluetestEntry) (c : Child)
    (sent : List BluetestData) (data : BluetestData) :
    ∃ sent', Steps Check.exec suite ⟨.loop run (entry.map BluetestEntry.checks) data, c, sent, p⟩
      ⟨.loop run [] (testLoop run entry data c).1, (testLoop run entry data c).2, sent', p⟩ := by
  induction entry generalizing data c sent with
  | nil => exact ⟨sent, .refl⟩
  | cons e entry ih =>
    obtain ⟨sent', hsteps⟩ := ih _ _ (callData Check.exec run data e.checks)
    exact ⟨sent', (steps_entry Check.exec suite run e.checks data).trans hsteps⟩

/-- The verdict of the sequential model is what the parent comes to in some run. -/
theorem exists_verdict (suite : List BluetestEntry) (capacity : ℕ) (pipeFdArg : CStr) :
    ∃ s code data, Reachable Check.exec (suite.map BluetestEntry.checks) capacity s ∧
      s.phase = .returned 0 ∧ s.parent = .finished code data ∧
      verdict capacity pipeFdArg suite
        = some (if code = 0 ∧ data.dynFail > 0 then 1 else code) := by
  have huser : CStr.strncmp 9 doTestInternal.bytes doTest ≠ 0 := by decide
  have hframework : CStr.strncmp 17 doTestInternal.bytes doTestInternal.bytes = 0 := by decide
  obtain ⟨sent, hdry⟩ := steps_testLoop false (p := .waiting)
    (suite.map BluetestEntry.checks) suite (.start capacity) [] .zero
  obtain ⟨sent', hreal⟩ := steps_testLoop true (suite.map BluetestEntry.checks)
    suite (initTest suite (.start capacity)).2 sent
    (testLoop false suite .zero (.start capacity)).1
  -- the run of the child without a break, and then the parent reads the pipe empty
  have hrun := ((hdry.tail .endInit).trans hreal).tail .endRun
  obtain ⟨c', hdrain⟩ := steps_drain Check.exec (suite.map BluetestEntry.checks)
    (.returned 0) (exitCode (exited 0)) (runTest suite (initTest suite (.start capacity)).2).2 .zero
  refine ⟨_, _, _, (hrun.tail (.wait rfl)).trans hdrain, rfl, rfl, ?_⟩
  have hmain : main [doTestInternal, pipeFdArg] suite 0 (.start capacity)
      = runTest suite (initTest suite (.start capacity)).2 := by
    rw [main, if_neg huser, if_pos hframework]
    rfl
  rw [verdict, hmain]
  show (handleWaitLoop 0 (runTest suite (initTest suite (.start capacity)).2).2.pipe.answers
    .zero).bind _ = _
  rw [Pipe.answers, handleWaitLoop_queued]
  rfl

end Bluetea.BlueTest
