import Bluetea.Print.Equiv.Ends

/-!
# Lines do not mix

Whatever the order of the steps, what is written is a line for each call that is done, whole, and part
of the line of the thread that has `pr_print`.  The lines of a thread are in the order of its calls, and
the time stamps in the order in which `time` has returned them, although the threads share the memory
that the functions of `time.h` write to (`print_lines`).
-/

namespace Bluetea.Print

variable {ι τ σ : Type*} (libc : Libc τ σ)

/-! ### The text -/

/-- The time stamp for what `time` returns when it is called for the `n`-th time. -/
def stampAt (n : ℕ) : List UInt8 := stamp (libc.asctime (libc.localtime (libc.time n)))

/-- The lines of calls, each with the next time stamp. -/
def text (done : List Call) : List UInt8 :=
  done.zipIdx.flatMap fun (c, i) => c.line (stampAt libc i)

theorem text_concat (done : List Call) (c : Call) :
    text libc (done ++ [c]) = text libc done ++ c.line (stampAt libc done.length) := by
  rw [text, List.zipIdx_append, List.flatMap_append, Nat.zero_add]
  exact congrArg _ (List.append_nil _)

/-- The calls of thread `t` among those that are done. -/
def callsOf [DecidableEq ι] (done : List (ι × Call)) (t : ι) : List Call :=
  (done.filter (·.1 = t)).map Prod.snd

/-- The calls that are still to be written. -/
def Loc.pending : Loc τ → List Call
  | idle todo => todo
  | call .unlockPrint _ todo => todo
  | call _ c todo => c :: todo

/-! ### The invariant -/

/-- The part of the line of `c` that is there. -/
def Pc.written (c : Call) : Pc τ → List UInt8
  | vprintf buf => c.head buf
  | putchar buf => c.head buf ++ c.text
  | _ => []

/-- What has become of the time, when `n` lines are there. -/
def Pc.Timed (n : ℕ) (d : Data σ) : Pc τ → Prop
  | localtime rawtime => d.ticks = n + 1 ∧ rawtime = libc.time n
  | asctime => d.ticks = n + 1 ∧ d.timeinfo = libc.localtime (libc.time n)
  | memcpy => d.ticks = n + 1 ∧ d.timeChr = libc.asctime (libc.localtime (libc.time n))
  | unlockTime buf | printf buf | vprintf buf | putchar buf =>
    d.ticks = n + 1 ∧ buf = stampAt libc n
  | _ => d.ticks = n

/-- What the data are for the thread that may have `pr_print`, when the lines of `done` are there. -/
def Loc.Stage (done : List Call) (d : Data σ) : Loc τ → Prop
  | idle _ => d.ticks = done.length ∧ d.stdout = text libc done
  | call pc c _ => pc.Timed libc done.length d ∧ d.stdout = text libc done ++ pc.written c

variable {libc} [DecidableEq ι] {calls : ι → List Call} {done done' : List (ι × Call)}
  {s s' : Locks.State ι Mutex (Loc τ) (Data σ)} {t u : ι} {l : Loc τ}

/-- The invariant, when the calls of `done` have been made. -/
structure Inv (libc : Libc τ σ) (calls : ι → List Call) (done : List (ι × Call))
    (s : Locks.State ι Mutex (Loc τ) (Data σ)) : Prop where
  owned : Locks.Owned Loc.Holds s
  calls : ∀ t, callsOf done t ++ (s.loc t).pending = calls t
  stage : ∀ t, s.owner .prPrint = none ∨ s.owner .prPrint = some t →
    (s.loc t).Stage libc (done.map Prod.snd) s.data
  free : s.owner .prPrint = none → s.data.stdout = text libc (done.map Prod.snd)

theorem callsOf_concat_self (done : List (ι × Call)) (t : ι) (c : Call) :
    callsOf (done ++ [(t, c)]) t = callsOf done t ++ [c] := by
  simp [callsOf]

theorem callsOf_concat_of_ne (done : List (ι × Call)) (c : Call) (h : u ≠ t) :
    callsOf (done ++ [(t, c)]) u = callsOf done u := by
  simp [callsOf, Ne.symm h]

omit [DecidableEq ι] in
/-- Nothing is there of the line of `c`. -/
theorem stage_iff {done : List Call} {d : Data σ} {pc : Pc τ} {c : Call} {todo : List Call}
    (h : pc.written c = []) : (Loc.call pc c todo).Stage libc done d ↔
      pc.Timed libc done.length d ∧ d.stdout = text libc done := by
  rw [Loc.Stage, h, List.append_nil]

omit [DecidableEq ι] in
/-- Where `pr_print` is not held, nothing is under way. -/
theorem stage_of_not_holds {done : List Call} {d : Data σ} (hl : ¬l.Holds .prPrint) :
    l.Stage libc done d ↔ d.ticks = done.length ∧ d.stdout = text libc done := by
  cases l with
  | idle todo => exact Iff.rfl
  | call pc c todo =>
    cases pc with
    | busyLock m n => exact stage_iff rfl
    | mutexLock m => exact stage_iff rfl
    | _ => exact absurd (by simp [Loc.Holds, Pc.Holds]) hl

/-! ### One step -/

omit [DecidableEq ι] in
theorem acquired_keeps (libc : Libc τ σ) (m : Mutex) (c : Call) (todo : List Call) :
    (Loc.call (acquired m) c todo : Loc τ).pending = c :: todo ∧
    ∀ (done : List Call) (d : Data σ), (Loc.call (acquired m) c todo).Stage libc done d ↔
      d.ticks = done.length ∧ d.stdout = text libc done := by
  cases m with
  | prPrint => exact ⟨rfl, fun done d => stage_iff rfl⟩
  | getTimeMt => exact ⟨rfl, fun done d => stage_iff rfl⟩

omit [DecidableEq ι] in
/-- **What an instruction does**: the line of a call goes on, or is done. -/
theorem code_keeps {l l' : Loc τ} {d : Data σ} (hl' : l' ∈ (code libc l d).targets) :
    l'.pending = l.pending ∧
      (∀ done, l.Stage libc done d → l'.Stage libc done ((code libc l d).after d)) ∨
    ∃ c, l.pending = c :: l'.pending ∧ l.Holds .prPrint ∧
      ∀ done, l.Stage libc done d → l'.Stage libc (done ++ [c]) ((code libc l d).after d) := by
  cases l with
  | idle todo =>
    cases todo with
    | nil => exact absurd hl' List.not_mem_nil
    | cons c todo =>
      obtain rfl := List.mem_singleton.mp hl'
      refine Or.inl ⟨rfl, fun done hstage => ?_⟩
      exact (stage_of_not_holds (l := .call (.busyLock .prPrint busyTries) c todo) id).mpr hstage
  | call pc c todo =>
    cases pc with
    | busyLock m n =>
      rcases List.mem_cons.mp hl' with rfl | hl'
      · obtain ⟨hsame, hstage⟩ := acquired_keeps libc m c todo
        exact Or.inl ⟨hsame, fun done h => (hstage done d).mpr ((stage_iff rfl).mp h)⟩
      · obtain rfl := List.mem_singleton.mp hl'
        cases n with
        | zero => exact Or.inl ⟨rfl, fun done => id⟩
        | succ n => exact Or.inl ⟨rfl, fun done => id⟩
    | mutexLock m =>
      obtain rfl := List.mem_singleton.mp hl'
      obtain ⟨hsame, hstage⟩ := acquired_keeps libc m c todo
      exact Or.inl ⟨hsame, fun done h => (hstage done d).mpr ((stage_iff rfl).mp h)⟩
    | time =>
      obtain rfl := List.mem_singleton.mp hl'
      refine Or.inl ⟨rfl, ?_⟩
      rintro done ⟨hticks, hout⟩
      have hticks : d.ticks = done.length := hticks
      refine ⟨⟨?_, ?_⟩, hout⟩
      · exact congrArg (· + 1) hticks
      · exact congrArg libc.time hticks
    | localtime rawtime =>
      obtain rfl := List.mem_singleton.mp hl'
      refine Or.inl ⟨rfl, ?_⟩
      rintro done ⟨⟨hticks, hraw⟩, hout⟩
      exact ⟨⟨hticks, congrArg libc.localtime hraw⟩, hout⟩
    | asctime =>
      obtain rfl := List.mem_singleton.mp hl'
      refine Or.inl ⟨rfl, ?_⟩
      rintro done ⟨⟨hticks, htimeinfo⟩, hout⟩
      exact ⟨⟨hticks, congrArg libc.asctime htimeinfo⟩, hout⟩
    | memcpy =>
      obtain rfl := List.mem_singleton.mp hl'
      refine Or.inl ⟨rfl, ?_⟩
      rintro done ⟨⟨hticks, htimeChr⟩, hout⟩
      exact ⟨⟨hticks, congrArg stamp htimeChr⟩, hout⟩
    | unlockTime buf =>
      obtain rfl := List.mem_singleton.mp hl'
      exact Or.inl ⟨rfl, fun done => id⟩
    | printf buf =>
      obtain rfl := List.mem_singleton.mp hl'
      refine Or.inl ⟨rfl, fun done h => ?_⟩
      obtain ⟨htimed, hout⟩ := (stage_iff rfl).mp h
      exact ⟨htimed, congrArg (· ++ c.head buf) hout⟩
    | vprintf buf =>
      obtain rfl := List.mem_singleton.mp hl'
      refine Or.inl ⟨rfl, ?_⟩
      rintro done ⟨htimed, hout⟩
      refine ⟨htimed, ?_⟩
      show d.stdout ++ c.text = text libc done ++ (c.head buf ++ c.text)
      rw [hout, Pc.written, List.append_assoc]
    | putchar buf =>
      -- the newline makes the line whole
      obtain rfl := List.mem_singleton.mp hl'
      refine Or.inr ⟨c, rfl, rfl, ?_⟩
      rintro done ⟨⟨hticks, hbuf⟩, hout⟩
      constructor
      · show d.ticks = (done ++ [c]).length
        rw [hticks, List.length_append, List.length_singleton]
      · show d.stdout ++ newline = text libc (done ++ [c]) ++ []
        rw [hout, text_concat, ← hbuf, List.append_nil, Pc.written, Call.line, List.append_assoc]
    | unlockPrint =>
      obtain rfl := List.mem_singleton.mp hl'
      exact Or.inl ⟨rfl, fun done h => (stage_iff rfl).mp h⟩

omit [DecidableEq ι] in
/-- Only a thread that holds `pr_print` changes the data. -/
theorem after_of_not_holds {l : Loc τ} {d : Data σ} (hl : ¬l.Holds .prPrint) :
    (code libc l d).after d = d := by
  cases l with
  | idle todo => cases todo <;> rfl
  | call pc c todo =>
    cases pc with
    | busyLock m n => rfl
    | mutexLock m => rfl
    | _ => exact absurd (by simp [Loc.Holds, Pc.Holds]) hl

/-- **The step lemma.** -/
theorem Inv.step (h : Inv libc calls done s) (hstep : Locks.Step (code libc) s s') :
    ∃ done', Inv libc calls done' s' := by
  have howned := (discipline libc).step h.owned hstep
  obtain ⟨t, l, hl, hloc, hdata⟩ := hstep.leads
  have hjump : s'.loc t = l := by rw [hloc, Function.update_self]
  have hstay : ∀ u, u ≠ t → s'.loc u = s.loc u := by
    intro u hu
    rw [hloc, Function.update_of_ne hu]
  have hfree : ∀ (g : List Call) (l l' : Loc τ) (d : Data σ), ¬l.Holds .prPrint →
      ¬l'.Holds .prPrint → l.Stage libc g d → l'.Stage libc g d := by
    intro g l l' d hl hl' hstage
    rw [stage_of_not_holds hl] at hstage
    exact (stage_of_not_holds hl').mpr hstage
  have hafter : ¬(s.loc t).Holds .prPrint → s'.data = s.data := by
    intro hnot
    rw [hdata]
    exact after_of_not_holds hnot
  -- with the lock free, thread `t` knows that nothing is under way
  have hquiet : ∀ done : List Call, (∀ u, s'.owner .prPrint = none ∨ s'.owner .prPrint = some u →
      (s'.loc u).Stage libc done s'.data) → s'.owner .prPrint = none →
      s'.data.stdout = text libc done := by
    intro done hstage hnone
    have hnot : ¬(s'.loc t).Holds .prPrint := by
      rw [← howned .prPrint t, hnone]
      exact (Option.some_ne_none t).symm
    exact ((stage_of_not_holds hnot).mp (hstage t (Or.inl hnone))).2
  rcases code_keeps hl with ⟨hpending, hstage⟩ | ⟨c, hpending, hholds, hstage⟩
  · have hstage' := h.owned.stage_step howned hloc hfree (fun hnot => ⟨rfl, hafter hnot⟩)
      (by rw [hdata]; exact hstage _) h.stage
    refine ⟨done, howned, ?_, hstage', hquiet _ hstage'⟩
    intro u
    by_cases hu : u = t
    · rw [hu, hjump, hpending]
      exact h.calls t
    · rw [hstay u hu]
      exact h.calls u
  · have hstage' := h.owned.stage_step howned hloc hfree (fun hnot => absurd hholds hnot)
      (by rw [hdata]; exact hstage _) h.stage
    have hmap : (done ++ [(t, c)]).map Prod.snd = done.map Prod.snd ++ [c] := List.map_append ..
    rw [← hmap] at hstage'
    refine ⟨done ++ [(t, c)], howned, ?_, hstage', hquiet _ hstage'⟩
    intro u
    by_cases hu : u = t
    · rw [hu, hjump, callsOf_concat_self, List.append_assoc, ← h.calls t, hpending]
      rfl
    · rw [hstay u hu, callsOf_concat_of_ne _ _ hu]
      exact h.calls u

theorem inv_start (calls : ι → List Call) (timeinfo : σ) (timeChr : TimeChr) :
    Inv libc calls [] (start calls timeinfo timeChr) :=
  ⟨start_owned, fun _ => rfl, fun _ _ => ⟨rfl, rfl⟩, fun _ => rfl⟩

theorem exists_inv {timeinfo : σ} {timeChr : TimeChr}
    (h : Locks.Reachable (code libc) (start calls timeinfo timeChr) s) :
    ∃ done, Inv libc calls done s := by
  have hstep : ∀ s s' : Locks.State ι Mutex (Loc τ) (Data σ), (∃ done, Inv libc calls done s) →
      Locks.Step (code libc) s s' → ∃ done, Inv libc calls done s' := by
    rintro s s' ⟨done, hinv⟩ hstep
    exact hinv.step hstep
  exact h.invariant ⟨[], inv_start calls timeinfo timeChr⟩ hstep

/-! ### Every run -/

omit [DecidableEq ι] in
/-- What is there of a line that is not whole. -/
theorem exists_rest {l : Loc τ} {done : List Call} {d : Data σ} (h : l.Stage libc done d) :
    ∃ rest, d.stdout = text libc done ++ rest ∧
      (rest ≠ [] → ∃ c todo, l.pending = c :: todo ∧ rest <+: c.line (stampAt libc done.length)) := by
  cases l with
  | idle todo => exact ⟨[], by rw [List.append_nil]; exact h.2, fun hne => absurd rfl hne⟩
  | call pc c todo =>
    refine ⟨pc.written c, h.2, fun hne => ?_⟩
    -- only between the pieces of a line is a part of one written
    cases pc with
    | vprintf buf =>
      refine ⟨c, todo, rfl, ?_⟩
      rw [Pc.written, Call.line, ← h.1.2, List.append_assoc]
      exact List.prefix_append ..
    | putchar buf =>
      refine ⟨c, todo, rfl, ?_⟩
      rw [Pc.written, Call.line, ← h.1.2]
      exact List.prefix_append ..
    | _ => exact absurd rfl hne

/-- **Lines do not mix.** -/
theorem print_lines {timeinfo : σ} {timeChr : TimeChr}
    (h : Locks.Reachable (code libc) (start calls timeinfo timeChr) s) :
    ∃ done : List (ι × Call), (∀ t, callsOf done t ++ (s.loc t).pending = calls t) ∧
      (∃ rest, s.data.stdout = text libc (done.map Prod.snd) ++ rest ∧
        (rest ≠ [] → ∃ t c todo, s.owner .prPrint = some t ∧ (s.loc t).pending = c :: todo ∧
          rest <+: c.line (stampAt libc done.length))) ∧
      ((∀ t, s.loc t = .idle []) →
        s.data.stdout = text libc (done.map Prod.snd) ∧ ∀ t, callsOf done t = calls t) := by
  obtain ⟨done, hinv⟩ := exists_inv h
  obtain ⟨rest, hout, hrest⟩ : ∃ rest, s.data.stdout = text libc (done.map Prod.snd) ++ rest ∧
      (rest ≠ [] → ∃ t c todo, s.owner .prPrint = some t ∧ (s.loc t).pending = c :: todo ∧
        rest <+: c.line (stampAt libc done.length)) := by
    cases hown : s.owner .prPrint with
    | none => exact ⟨[], by rw [List.append_nil]; exact hinv.free hown, fun hne => absurd rfl hne⟩
    | some t =>
      obtain ⟨rest, hout, hrest⟩ := exists_rest (hinv.stage t (Or.inr hown))
      refine ⟨rest, hout, fun hne => ?_⟩
      obtain ⟨c, todo, hpending, hprefix⟩ := hrest hne
      rw [List.length_map] at hprefix
      exact ⟨t, c, todo, rfl, hpending, hprefix⟩
  refine ⟨done, hinv.calls, ⟨rest, hout, hrest⟩, fun hidle => ⟨?_, ?_⟩⟩
  · by_cases hnil : rest = []
    · rw [hout, hnil, List.append_nil]
    · -- a thread at its end has no call to write
      obtain ⟨t, c, todo, -, hpending, -⟩ := hrest hnil
      rw [hidle t] at hpending
      cases hpending
  · intro t
    rw [← hinv.calls t, hidle t]
    exact (List.append_nil _).symm

/-- Time is a count, and shown as one digit. -/
def sampleLibc : Libc ℕ ℕ where
  time := id
  localtime := id
  asctime _ := ⟨⟨[0x31, 0x0a], CStr.ne_zero_of_all rfl⟩, Nat.succ_ne_zero 1⟩

/-- Two threads: the one reports an error, the other has a notice. -/
def sampleCalls : Bool → List Call
  | true => [prError []]
  | false => [prNotice []]

/-- One of them has written the head of its line, and the other has tried the lock. -/
theorem exists_printing : ∃ s,
    Locks.Reachable (code sampleLibc) (start sampleCalls 0 (sampleLibc.asctime 0)) s ∧
      s.data.stdout = (prError []).head [0x31] ∧
      s.loc true = .call (.vprintf [0x31]) (prError []) [] ∧
      s.loc false = .call (.busyLock .prPrint 4999) (prNotice []) [] := by
  have h₀ : Locks.Reachable (code sampleLibc)
      (start sampleCalls 0 (sampleLibc.asctime 0)) _ := .refl
  have h₁ := (h₀.tail (.go (t := true) rfl)).tail (.go (t := false) rfl)
  have h₂ := (h₁.tail (.trylock (t := true) rfl rfl)).tail
    (.busy (t := false) rfl (Option.some_ne_none true))
  have h₃ := (h₂.tail (.trylock (t := true) rfl rfl)).tail (.go (t := true) rfl)
  have h₄ := (h₃.tail (.go (t := true) rfl)).tail (.go (t := true) rfl)
  have h₅ := (h₄.tail (.go (t := true) rfl)).tail (.unlock (t := true) rfl rfl)
  exact ⟨_, h₅.tail (.go (t := true) rfl), rfl, rfl, rfl⟩

theorem print_lines_printing : ∃ s : Locks.State Bool Mutex (Loc ℕ) (Data ℕ), s.data.stdout ≠ [] ∧
    ∃ done : List (Bool × Call), (∀ t, callsOf done t ++ (s.loc t).pending = sampleCalls t) ∧
      (∃ rest, s.data.stdout = text sampleLibc (done.map Prod.snd) ++ rest ∧
        (rest ≠ [] → ∃ t c todo, s.owner .prPrint = some t ∧ (s.loc t).pending = c :: todo ∧
          rest <+: c.line (stampAt sampleLibc done.length))) ∧
      ((∀ t, s.loc t = .idle []) → s.data.stdout = text sampleLibc (done.map Prod.snd) ∧
        ∀ t, callsOf done t = sampleCalls t) := by
  obtain ⟨s, h, hout, -⟩ := exists_printing
  refine ⟨s, ?_, print_lines h⟩
  rw [hout]
  exact List.cons_ne_nil _ _

end Bluetea.Print
