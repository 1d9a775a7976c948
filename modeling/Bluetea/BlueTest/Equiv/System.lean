import Bluetea.BlueTest.Equiv.Verdict
import Bluetea.BlueTest.System
import Bluetea.Machine.Bounded

/-!
# What the two processes know

The counters and the reports of the spawned process are determined by the entries it has completed
(`PhaseInv`), and its snapshot of the counters is the one before the call it is in.  The pipe drops
what does not fit, and nothing is taken out before the process has ended, so the parent gets the
first reports (`PipeInv`).
-/

namespace Bluetea.BlueTest

variable {κ : Type*} (move : Bool → Frame → κ → Frame) (suite : List (Bool → List κ))

/-! ### Counters and reports -/

/-- The counters after a call. -/
def callData (run : Bool) (d : BluetestData) (e : Bool → List κ) : BluetestData :=
  ((e run).foldl (move run) ⟨0, d⟩).data

/-- The counters after calls of all entries of a list. -/
def after (run : Bool) (es : List (Bool → List κ)) (d : BluetestData) : BluetestData :=
  es.foldl (callData move run) d

/-- The counters after each of these calls. -/
def afterEach (run : Bool) : List (Bool → List κ) → BluetestData → List BluetestData
  | [], _ => []
  | e :: es, d => callData move run d e :: afterEach run es (callData move run d e)

/-- The counters a run starts with. -/
def base (run : Bool) : BluetestData := if run then after move false suite .zero else .zero

/-- The counters in a run, when the entries `front` are completed. -/
def tally (run : Bool) (front : List (Bool → List κ)) : BluetestData :=
  after move run front (base move suite run)

/-- The reports up to there, from the beginning of the dry run on. -/
def reportsTo (run : Bool) (front : List (Bool → List κ)) : List BluetestData :=
  (if run then afterEach move false suite .zero else [])
    ++ afterEach move run front (base move suite run)

variable {move suite}

theorem after_concat (run : Bool) (es : List (Bool → List κ)) (e : Bool → List κ)
    (d : BluetestData) :
    after move run (es ++ [e]) d = callData move run (after move run es d) e := by
  rw [after, List.foldl_append]
  rfl

theorem afterEach_concat (run : Bool) (es : List (Bool → List κ)) (e : Bool → List κ)
    (d : BluetestData) :
    afterEach move run (es ++ [e]) d
      = afterEach move run es d ++ [callData move run (after move run es d) e] := by
  induction es generalizing d with
  | nil => rfl
  | cons e' es ih =>
    rw [List.cons_append, afterEach, ih, afterEach]
    rfl

theorem length_afterEach (run : Bool) (es : List (Bool → List κ)) (d : BluetestData) :
    (afterEach move run es d).length = es.length := by
  induction es generalizing d with
  | nil => rfl
  | cons e es ih => rw [afterEach, List.length_cons, ih, List.length_cons]

/-- The first reports are those of the first entries. -/
theorem take_afterEach (run : Bool) (es : List (Bool → List κ)) (n : ℕ) (d : BluetestData) :
    (afterEach move run es d).take n = afterEach move run (es.take n) d := by
  induction es generalizing n d with
  | nil => rw [List.take_nil]; exact List.take_nil
  | cons e es ih =>
    cases n with
    | zero => rfl
    | succ n => rw [afterEach, List.take_succ_cons, ih, List.take_succ_cons, afterEach]

theorem getLastD_afterEach (run : Bool) (es : List (Bool → List κ)) (d : BluetestData) :
    (afterEach move run es d).getLastD d = after move run es d := by
  induction es generalizing d with
  | nil => rfl
  | cons e es ih => rw [afterEach, List.getLastD_cons, ih]; rfl

/-- The last report has the counters of that moment. -/
theorem getLastD_reportsTo (run : Bool) (front : List (Bool → List κ)) :
    (reportsTo move suite run front).getLastD .zero = tally move suite run front := by
  have hbase : (if run then afterEach move false suite .zero else []).getLastD .zero
      = base move suite run := by
    cases run
    · rfl
    · exact getLastD_afterEach false suite .zero
  rw [reportsTo, getLastD_append, hbase, getLastD_afterEach, tally]

/-- When there is room for the dry run, the pipe ends up with the beginning of the real run. -/
theorem getLastD_take_reportsTo {n : ℕ} (h : suite.length ≤ n) :
    ((reportsTo move suite true suite).take n).getLastD .zero
      = tally move suite true (suite.take (n - suite.length)) := by
  rw [← getLastD_reportsTo, reportsTo, reportsTo, if_pos rfl, List.take_append,
    length_afterEach, List.take_of_length_le (by rwa [length_afterEach]), take_afterEach]

theorem length_reportsTo_true (move : Bool → Frame → κ → Frame) (suite : List (Bool → List κ)) :
    (reportsTo move suite true suite).length = 2 * suite.length := by
  rw [reportsTo, if_pos rfl, List.length_append, length_afterEach, length_afterEach]
  omega

/-- The next call is reported with the counters after it. -/
theorem tally_concat (run : Bool) (front : List (Bool → List κ)) (e : Bool → List κ) :
    tally move suite run (front ++ [e]) = callData move run (tally move suite run front) e :=
  after_concat run front e _

theorem reportsTo_concat (run : Bool) (front : List (Bool → List κ)) (e : Bool → List κ) :
    reportsTo move suite run (front ++ [e])
      = reportsTo move suite run front ++ [tally move suite run (front ++ [e])] := by
  rw [reportsTo, afterEach_concat, tally_concat, reportsTo, List.append_assoc]
  rfl

/-- The real run starts where the dry run has ended. -/
theorem tally_true_nil : tally move suite true [] = tally move suite false suite := rfl

theorem reportsTo_true_nil : reportsTo move suite true [] = reportsTo move suite false suite :=
  List.append_nil _

/-- For entries made of checks, the counters add these up. -/
theorem after_checks (run : Bool) (es : List BluetestEntry) (d : BluetestData) :
    after Check.exec run (es.map BluetestEntry.checks) d = d.add run (checks run es) := by
  induction es generalizing d with
  | nil => rw [checks, List.flatMap_nil, BluetestData.add_nil]; rfl
  | cons e es ih =>
    have hcall : callData Check.exec run d e.checks = d.add run (e.checks run) :=
      data_foldl_exec run (e.checks run) ⟨0, d⟩
    rw [List.map_cons, after, List.foldl_cons, hcall, ← after, ih, checks, checks,
      List.flatMap_cons, BluetestData.add_append]

/-! ### The spawned process -/

/-- `front` is what the run has completed. -/
def PhaseInv (move : Bool → Frame → κ → Frame) (suite : List (Bool → List κ)) (s : State κ) :
    Prop :=
  match s.phase with
  | .loop run entry data => ∃ front, suite = front ++ entry ∧
      data = tally move suite run front ∧ s.sent = reportsTo move suite run front
  | .call run entry todo f => ∃ front e done, suite = front ++ e :: entry ∧
      e run = done ++ todo ∧
      f = done.foldl (move run) ⟨0, tally move suite run front⟩ ∧
      s.child.gData = tally move suite run front ∧ s.child.willRunTest = run ∧
      s.sent = reportsTo move suite run front
  | .returned exitCode => exitCode = 0 ∧ s.sent = reportsTo move suite true suite
  | .crashed wstatus => (wIfSignaled wstatus ∨ wstatus = exited 1) ∧
      ∃ run front entry, suite = front ++ entry ∧
        -- the handler's report is missing when the process was killed from outside
        (s.sent = reportsTo move suite run front ∨
          s.sent = reportsTo move suite run front ++ [tally move suite run front])

variable {s s' : State κ} {capacity : ℕ}

theorem PhaseInv.start (capacity : ℕ) : PhaseInv move suite (.start suite capacity) :=
  ⟨[], rfl, rfl, rfl⟩

theorem PhaseInv.step (h : PhaseInv move suite s) (hstep : Step move suite s s') :
    PhaseInv move suite s' := by
  cases hstep with
  | enter =>
    obtain ⟨front, hsuite, hdata, hsent⟩ := h
    exact ⟨front, _, [], hsuite, rfl, by rw [hdata]; rfl, hdata, rfl, hsent⟩
  | @move run entry k todo f c sent p =>
    obtain ⟨front, e, done, hsuite, he, hf, hg, hrun, hsent⟩ := h
    refine ⟨front, e, done ++ [k], hsuite, ?_, ?_, hg, hrun, hsent⟩
    · rw [he, List.append_assoc]
      rfl
    · rw [List.foldl_append, ← hf, hrun]
      rfl
  | @leave run entry f c sent p =>
    obtain ⟨front, e, done, hsuite, he, hf, -, -, hsent⟩ := h
    -- no move is left, so the counters are those after the entry
    have hdata : f.data = tally move suite run (front ++ [e]) := by
      rw [tally_concat, callData, he, List.append_nil, hf]
    refine ⟨front ++ [e], ?_, hdata, ?_⟩
    · rw [hsuite, List.append_assoc]
      rfl
    · rw [reportsTo_concat, ← hdata, ← hsent]
  | endInit =>
    obtain ⟨front, hsuite, hdata, hsent⟩ := h
    rw [List.append_nil] at hsuite
    subst hsuite
    exact ⟨[], rfl, hdata.trans tally_true_nil.symm, hsent.trans reportsTo_true_nil.symm⟩
  | endRun =>
    obtain ⟨front, hsuite, -, hsent⟩ := h
    rw [List.append_nil] at hsuite
    subst hsuite
    exact ⟨rfl, hsent⟩
  | @crash run entry todo f c sent p wstatus hw =>
    obtain ⟨front, e, done, hsuite, -, -, hg, -, hsent⟩ := h
    -- the handler reports the counters in front of the entry
    refine ⟨hw, run, front, e :: entry, hsuite, Or.inr ?_⟩
    rw [← hg, ← hsent]
    rfl
  | @kill ph c sent p wstatus hrun hw =>
    -- nothing more is sent, wherever the process is
    cases ph with
    | loop run entry data =>
      obtain ⟨front, hsuite, -, hsent⟩ := h
      exact ⟨Or.inl hw, run, front, entry, hsuite, Or.inl hsent⟩
    | call run entry todo f =>
      obtain ⟨front, e, done, hsuite, -, -, -, -, hsent⟩ := h
      exact ⟨Or.inl hw, run, front, e :: entry, hsuite, Or.inl hsent⟩
    | returned code => cases hrun
    | crashed wstatus => cases hrun
  | wait => exact h
  | read => exact h
  | timeout => exact h

theorem Reachable.phaseInv (h : Reachable move suite capacity s) : PhaseInv move suite s := by
  induction h with
  | refl => exact PhaseInv.start capacity
  | tail _ hstep ih => exact ih.step hstep

theorem mem_afterEach {run : Bool} {es : List (Bool → List κ)} {d d' : BluetestData}
    (h : d' ∈ afterEach move run es d) : ∃ n, d' = after move run (es.take n) d := by
  induction es generalizing d with
  | nil => cases h
  | cons e es ih =>
    rcases List.mem_cons.mp h with rfl | h
    · exact ⟨1, rfl⟩
    · obtain ⟨n, hn⟩ := ih h
      exact ⟨n + 1, hn⟩

theorem mem_reportsTo {run : Bool} {front rest : List (Bool → List κ)} {d : BluetestData}
    (hsuite : suite = front ++ rest) (h : d ∈ reportsTo move suite run front) :
    ∃ run n, d = tally move suite run (suite.take n) := by
  have hfront : front = suite.take front.length := by rw [hsuite, List.take_left]
  rcases List.mem_append.mp h with h | h
  · cases run
    · cases h
    · obtain ⟨n, hn⟩ := mem_afterEach h
      exact ⟨false, n, hn⟩
  · obtain ⟨n, hn⟩ := mem_afterEach h
    rw [hfront, List.take_take] at hn
    exact ⟨run, _, hn⟩

/-- Every report is a tally: that of a completed call, or the one from before a crash. -/
theorem Reachable.mem_sent (h : Reachable move suite capacity s) {d : BluetestData}
    (hd : d ∈ s.sent) : ∃ run n, d = tally move suite run (suite.take n) := by
  have hinv := h.phaseInv
  obtain ⟨ph, c, sent, p⟩ := s
  cases ph with
  | loop run entry data =>
    obtain ⟨front, hsuite, -, hsent⟩ := hinv
    exact mem_reportsTo hsuite (hsent ▸ hd)
  | call run entry todo f =>
    obtain ⟨front, e, done, hsuite, -, -, -, -, hsent⟩ := hinv
    exact mem_reportsTo hsuite (hsent ▸ hd)
  | returned code => exact mem_reportsTo (List.append_nil suite).symm (hinv.2 ▸ hd)
  | crashed wstatus =>
    obtain ⟨-, run, front, entry, hsuite, hsent | hsent⟩ := hinv
    · exact mem_reportsTo hsuite (hsent ▸ hd)
    · have hd : d ∈ reportsTo move suite run front ++ [tally move suite run front] := hsent ▸ hd
      rcases List.mem_append.mp hd with hd | hd
      · exact mem_reportsTo hsuite hd
      · -- the handler reports what the entries before the crash have left
        refine ⟨run, front.length, ?_⟩
        rw [List.mem_singleton.mp hd, hsuite, List.take_left]

/-! ### The pipe -/

/-- A write that does not block drops the report when the pipe is full. -/
theorem Pipe.write_snd (p : Pipe) (data : BluetestData) :
    (p.write data).2
      = { p with queued := DropTail.send (p.capacity / reportSize) p.queued data } := by
  have hroom : reportSize * (p.queued.length + 1) ≤ p.capacity ↔
      p.queued.length < p.capacity / reportSize := by
    rw [← Nat.succ_le_iff, Nat.le_div_iff_mul_le (by decide), Nat.mul_comm]
  by_cases h : p.queued.length < p.capacity / reportSize
  · rw [write, if_pos (hroom.mpr h), DropTail.send, if_pos h]
  · rw [write, if_neg (fun hr => h (hroom.mp hr)), DropTail.send, if_neg h]

/-- What the parent has read is the beginning of what has got into the pipe. -/
def ParentInv (capacity : ℕ) (s : State κ) : Prop :=
  match s.parent with
  | .waiting => s.child.pipe.queued = s.sent.take (capacity / reportSize)
  | .reading code data => ∃ wstatus, s.phase.wstatus? = some wstatus ∧ code = exitCode wstatus ∧
      ∃ got, got ++ s.child.pipe.queued = s.sent.take (capacity / reportSize) ∧
        data = got.getLastD .zero
  | .finished code data => ∃ wstatus, s.phase.wstatus? = some wstatus ∧
      code = exitCode wstatus ∧
      data = (s.sent.take (capacity / reportSize)).getLastD .zero

structure PipeInv (capacity : ℕ) (s : State κ) : Prop where
  capacity_eq : s.child.pipe.capacity = capacity
  parent : ParentInv capacity s

theorem PipeInv.start (suite : List (Bool → List κ)) (capacity : ℕ) :
    PipeInv capacity (.start suite capacity) :=
  ⟨rfl, List.take_nil.symm⟩

/-- The parent waits as long as the process runs. -/
theorem PipeInv.waiting (h : PipeInv capacity s) (hrun : s.phase.wstatus? = none) :
    s.parent = .waiting ∧ s.child.pipe.queued = s.sent.take (capacity / reportSize) := by
  obtain ⟨ph, c, sent, p⟩ := s
  have hparent := h.parent
  cases p with
  | waiting => exact ⟨rfl, hparent⟩
  | reading code data =>
    obtain ⟨wstatus, hw, -⟩ := hparent
    cases hrun.symm.trans hw
  | finished code data =>
    obtain ⟨wstatus, hw, -⟩ := hparent
    cases hrun.symm.trans hw

/-- The process moves on, with the pipe as it is. -/
theorem PipeInv.keep {ph ph' : Phase κ} {c c' : Child} {sent : List BluetestData} {p : Parent}
    (h : PipeInv capacity ⟨ph, c, sent, p⟩) (hrun : ph.wstatus? = none) (hpipe : c'.pipe = c.pipe) :
    PipeInv capacity ⟨ph', c', sent, p⟩ := by
  obtain ⟨rfl, hqueued⟩ := h.waiting hrun
  refine ⟨?_, ?_⟩
  · show c'.pipe.capacity = capacity
    rw [hpipe]
    exact h.capacity_eq
  · show c'.pipe.queued = _
    rw [hpipe]
    exact hqueued

/-- The process sends a report. -/
theorem PipeInv.report {ph ph' : Phase κ} {c : Child} {sent : List BluetestData} {p : Parent}
    (h : PipeInv capacity ⟨ph, c, sent, p⟩) (hrun : ph.wstatus? = none) (data : BluetestData) :
    PipeInv capacity ⟨ph', c.report data, sent ++ [data], p⟩ := by
  obtain ⟨rfl, hqueued⟩ := h.waiting hrun
  have hcap : c.pipe.capacity = capacity := h.capacity_eq
  have hpipe : (c.report data).pipe
      = ⟨capacity, (sent ++ [data]).take (capacity / reportSize)⟩ := by
    show (c.pipe.write data).2 = _
    rw [Pipe.write_snd, ← DropTail.send_take, ← hqueued, hcap]
  refine ⟨?_, ?_⟩
  · show (c.report data).pipe.capacity = capacity
    rw [hpipe]
  · show (c.report data).pipe.queued = _
    rw [hpipe]

theorem PipeInv.step (h : PipeInv capacity s) (hstep : Step move suite s s') :
    PipeInv capacity s' := by
  cases hstep with
  | enter => exact h.keep rfl rfl
  | move => exact h.keep rfl rfl
  | leave => exact h.report rfl _
  | endInit => exact h.keep rfl rfl
  | endRun => exact h.keep rfl rfl
  | crash hw => exact h.report rfl _
  | kill hrun hw => exact h.keep hrun rfl
  | @wait ph c sent wstatus hw =>
    have hqueued : c.pipe.queued = sent.take (capacity / reportSize) := h.parent
    exact ⟨h.capacity_eq, wstatus, hw, rfl, [], hqueued, rfl⟩
  | @read ph g w cap d queued sent code data =>
    obtain ⟨wstatus, hw, hcode, got, hgot, -⟩ := h.parent
    refine ⟨h.capacity_eq, wstatus, hw, hcode, got ++ [d], ?_, ?_⟩
    · rw [← hgot, List.append_assoc]
      rfl
    · exact (getLastD_append got [d] .zero).symm
  | timeout =>
    obtain ⟨wstatus, hw, hcode, got, hgot, hdata⟩ := h.parent
    rw [List.append_nil] at hgot
    exact ⟨h.capacity_eq, wstatus, hw, hcode, by rw [← hgot]; exact hdata⟩

theorem Reachable.pipeInv (h : Reachable move suite capacity s) : PipeInv capacity s := by
  induction h with
  | refl => exact PipeInv.start suite capacity
  | tail _ hstep ih => exact ih.step hstep

end Bluetea.BlueTest
