import Bluetea.Mutex.Basic
import Mathlib.Data.List.Nodup

/-!
# The life of a lock and of a condition

`destroy` relies on the `init` flag, and the flag says less than it should: it is set before the
outcome of the pthread `init` is known, and `bt_cond_destroy` frees the marker whatever it is.  So
a run is safe exactly when nothing is destroyed after an `init` that failed, and no condition twice
while it has a marker (`lifecycle_safe_iff`).
-/

namespace Bluetea.Mutex

variable {s : Sys} {o : Obj} {calls : List PthreadCall} {ph : Obj → Phase}

/-! ### What a call does -/

/-- After `init`: a marker, if there was memory for it, and a pthread `init` on the record. -/
def Sys.inited (s : Sys) (o : Obj) (mallocOk : Bool) (ret : Int) : Sys where
  objs := Function.update s.objs o ⟨true, if mallocOk then some s.next else none⟩
  next := if mallocOk then s.next + 1 else s.next
  freed := s.freed
  calls := s.calls ++ [.init o ret]

/-- After `destroy` with the flag set. -/
def Sys.destroyedObj (s : Sys) (o : Obj) (ret : Int) : Sys where
  objs := Function.update s.objs o { s.objs o with init := false }
  next := s.next
  freed := s.freed ++ (s.objs o).testLeak.toList
  calls := s.calls ++ [.destroy o ret]

/-- What `destroy` frees when the flag is not set. -/
def staleLeak (s : Sys) : Obj → Option ℕ
  | .lock => none
  | .cond => (s.objs .cond).testLeak

/-- After `destroy` with the flag not set. -/
def Sys.freeStale (s : Sys) (o : Obj) : Sys :=
  { s with freed := s.freed ++ (staleLeak s o).toList }

@[simp] theorem run_free (p : Option ℕ) (s : Sys) :
    (free p).run s = ((), { s with freed := s.freed ++ p.toList }) := by
  cases p with
  | none =>
    rw [Option.toList_none, List.append_nil]
    rfl
  | some k => rfl

theorem exec_init (s : Sys) (o : Obj) (mallocOk : Bool) (ret : Int) :
    exec s (.init o mallocOk ret) = (ret, s.inited o mallocOk ret) := by
  cases o with
  | lock =>
    cases mallocOk <;>
    · simp [exec, btMutexInit, malloc, setTestLeak, setInit, pthreadInit, Sys.setObj, Sys.inited]
      rfl
  | cond =>
    cases mallocOk <;>
    · simp [exec, btCondInit, malloc, setTestLeak, setInit, pthreadInit, Sys.setObj, Sys.inited]
      rfl

theorem exec_destroy (h : (s.objs o).init = true) (ret : Int) :
    exec s (.destroy o ret) = (ret, s.destroyedObj o ret) := by
  cases o with
  | lock =>
    simp [exec, btMutexDestroy, h, setInit, pthreadDestroy, Sys.setObj]
    rfl
  | cond =>
    simp [exec, btCondDestroy, h, setInit, pthreadDestroy, Sys.setObj]
    rfl

theorem exec_destroy_again (h : (s.objs o).init = false) (ret : Int) :
    exec s (.destroy o ret) = (0, s.freeStale o) := by
  cases o with
  | lock =>
    simp [exec, btMutexDestroy, h, Sys.freeStale, staleLeak]
    rfl
  | cond =>
    simp [exec, btCondDestroy, h, Sys.freeStale, staleLeak]
    rfl

/-! ### The record -/

theorem lastCall_append_self {c : PthreadCall} (hc : c.obj = o) :
    lastCall o (calls ++ [c]) = some c := by
  simp [lastCall, List.filter_append, hc]

theorem lastCall_append_of_ne {c : PthreadCall} (hc : c.obj ≠ o) :
    lastCall o (calls ++ [c]) = lastCall o calls := by
  simp [lastCall, List.filter_append, hc]

/-- Only usable objects were destroyed. -/
def OnlyUsable (calls : List PthreadCall) : Prop :=
  ∀ pre o ret post, calls = pre ++ .destroy o ret :: post → Usable o pre

theorem safe_iff : s.Safe ↔ s.freed.Nodup ∧ OnlyUsable s.calls :=
  ⟨fun h => ⟨h.freed, h.destroyed⟩, fun h => ⟨h.1, h.2⟩⟩

/-- The calls made before the last one do not depend on it. -/
theorem onlyUsable_append {c : PthreadCall} : OnlyUsable (calls ++ [c]) ↔
    OnlyUsable calls ∧ ∀ o ret, c = .destroy o ret → Usable o calls := by
  constructor
  · intro h
    constructor
    · rintro pre o ret post rfl
      exact h pre o ret (post ++ [c]) (by simp)
    · rintro o ret rfl
      exact h calls o ret [] rfl
  · rintro ⟨hcalls, hlast⟩ pre o ret post heq
    rcases List.eq_nil_or_concat post with rfl | ⟨post, d, rfl⟩
    · obtain ⟨rfl, hc⟩ := List.append_inj' heq rfl
      exact hlast o ret (List.cons.inj hc).1
    · rw [List.concat_eq_append, ← List.cons_append, ← List.append_assoc] at heq
      exact hcalls pre o ret post (List.append_inj' heq rfl).1

theorem onlyUsable_init (ret : Int) :
    OnlyUsable (calls ++ [.init o ret]) ↔ OnlyUsable calls :=
  onlyUsable_append.trans ⟨fun h => h.1, fun h => ⟨h, fun o ret hc => by cases hc⟩⟩

theorem onlyUsable_destroy (ret : Int) :
    OnlyUsable (calls ++ [.destroy o ret]) ↔ OnlyUsable calls ∧ Usable o calls := by
  rw [onlyUsable_append]
  constructor
  · rintro ⟨hcalls, hlast⟩
    exact ⟨hcalls, hlast o ret rfl⟩
  · rintro ⟨hcalls, hlast⟩
    refine ⟨hcalls, ?_⟩
    rintro o ret ⟨⟩
    exact hlast

theorem nodup_append_toList {l : List ℕ} {p : Option ℕ} :
    (l ++ p.toList).Nodup ↔ l.Nodup ∧ ∀ k, p = some k → k ∉ l := by
  cases p with
  | none => simp
  | some k =>
    rw [Option.toList_some, List.nodup_append_comm, List.singleton_append, List.nodup_cons]
    constructor
    · rintro ⟨hk, hl⟩
      refine ⟨hl, ?_⟩
      rintro k ⟨⟩
      exact hk
    · rintro ⟨hl, hk⟩
      exact ⟨hk k rfl, hl⟩

/-! ### The invariant -/

/-- After an `init` that returned `ret`: the flag is set and the marker has not been freed. -/
structure Owned (s : Sys) (o : Obj) (ret : Int) : Prop where
  flag : (s.objs o).init = true
  last : lastCall o s.calls = some (.init o ret)
  marker : ∀ k, (s.objs o).testLeak = some k → k < s.next ∧ k ∉ s.freed

/-- After a `destroy`: the flag is not set and the marker has been freed. -/
structure Gone (s : Sys) (o : Obj) : Prop where
  flag : (s.objs o).init = false
  marker : ∀ k, (s.objs o).testLeak = some k → k ∈ s.freed

/-- What the phases say about the objects. -/
structure Inv (s : Sys) (ph : Obj → Phase) : Prop where
  freed_lt : ∀ k ∈ s.freed, k < s.next
  inited : ∀ o ret, ph o = .inited ret → Owned s o ret
  destroyed : ∀ o, ph o = .destroyed → Gone s o
  apart : ∀ o o' ret ret' k, ph o = .inited ret → ph o' = .inited ret' →
    (s.objs o).testLeak = some k → (s.objs o').testLeak = some k → o = o'

theorem inv_start (objs : Obj → BtObj) : Inv (Sys.start objs) fun _ => .never where
  freed_lt k hk := by cases hk
  inited o ret h := by cases h
  destroyed o h := by cases h
  apart o o' ret ret' k h := by cases h

section Frame

variable {s' : Sys} (hobj : s'.objs o = s.objs o)

include hobj

theorem Owned.frame {ret : Int} (h : Owned s o ret) (hnext : s.next ≤ s'.next)
    (hlast : lastCall o s'.calls = lastCall o s.calls)
    (hfreed : ∀ k, (s.objs o).testLeak = some k → k ∉ s.freed → k ∉ s'.freed) :
    Owned s' o ret := by
  constructor
  · rw [hobj]
    exact h.flag
  · rw [hlast]
    exact h.last
  · intro k hk
    rw [hobj] at hk
    obtain ⟨hlt, hnot⟩ := h.marker k hk
    exact ⟨Nat.lt_of_lt_of_le hlt hnext, hfreed k hk hnot⟩

theorem Gone.frame (h : Gone s o) (hfreed : s.freed ⊆ s'.freed) : Gone s' o := by
  constructor
  · rw [hobj]
    exact h.flag
  · intro k hk
    rw [hobj] at hk
    exact hfreed (h.marker k hk)

end Frame

/-! ### One call -/

section Init

variable {mallocOk : Bool} {ret : Int}

theorem inited_self : (s.inited o mallocOk ret).objs o
    = ⟨true, if mallocOk then some s.next else none⟩ := Function.update_self o _ s.objs

theorem inited_of_ne {o' : Obj} (ho : o' ≠ o) : (s.inited o mallocOk ret).objs o' = s.objs o' :=
  Function.update_of_ne ho _ s.objs

theorem le_inited_next : s.next ≤ (s.inited o mallocOk ret).next := by
  cases mallocOk with
  | false => exact Nat.le_refl _
  | true => exact Nat.le_succ _

/-- The marker of `init` is new. -/
theorem inited_marker {k : ℕ} (hk : ((s.inited o mallocOk ret).objs o).testLeak = some k) :
    k = s.next ∧ k < (s.inited o mallocOk ret).next := by
  rw [inited_self] at hk
  cases mallocOk with
  | false => cases hk
  | true =>
    cases hk
    exact ⟨rfl, Nat.lt_succ_self _⟩

theorem Inv.owned_inited (h : Inv s ph) : Owned (s.inited o mallocOk ret) o ret := by
  constructor
  · rw [inited_self]
  · exact lastCall_append_self rfl
  · intro k hk
    obtain ⟨rfl, hlt⟩ := inited_marker hk
    exact ⟨hlt, fun hmem => Nat.lt_irrefl _ (h.freed_lt _ hmem)⟩

theorem Inv.inited_apart (h : Inv s ph) {o' : Obj} {ret' : Int} {k : ℕ} (ho : o' ≠ o)
    (hph : ph o' = .inited ret') (hk : ((s.inited o mallocOk ret).objs o).testLeak = some k) :
    ((s.inited o mallocOk ret).objs o').testLeak ≠ some k := by
  intro hk'
  rw [inited_of_ne ho] at hk'
  have hlt := ((h.inited o' ret' hph).marker k hk').1
  obtain ⟨rfl, -⟩ := inited_marker hk
  exact Nat.lt_irrefl _ hlt

theorem Inv.init (h : Inv s ph) :
    Inv (s.inited o mallocOk ret) (Function.update ph o (.inited ret)) := by
  constructor
  · -- for each clause, `o` itself has just been called and every other object is as before
    intro k hk
    exact Nat.lt_of_lt_of_le (h.freed_lt k hk) le_inited_next
  · intro o' ret' hph
    by_cases ho : o' = o
    · subst ho
      rw [Function.update_self] at hph
      obtain rfl := Phase.inited.inj hph
      exact h.owned_inited
    · rw [Function.update_of_ne ho] at hph
      apply (h.inited o' ret' hph).frame (inited_of_ne ho) le_inited_next
      · exact lastCall_append_of_ne fun heq => ho heq.symm
      · exact fun k _ hk => hk
  · intro o' hph
    by_cases ho : o' = o
    · subst ho
      rw [Function.update_self] at hph
      cases hph
    · rw [Function.update_of_ne ho] at hph
      exact (h.destroyed o' hph).frame (inited_of_ne ho) (List.Subset.refl _)
  · intro o₁ o₂ ret₁ ret₂ k h₁ h₂ hk₁ hk₂
    by_cases ho₁ : o₁ = o <;> by_cases ho₂ : o₂ = o
    · exact ho₁.trans ho₂.symm
    · subst ho₁
      rw [Function.update_of_ne ho₂] at h₂
      exact absurd hk₂ (h.inited_apart ho₂ h₂ hk₁)
    · subst ho₂
      rw [Function.update_of_ne ho₁] at h₁
      exact absurd hk₁ (h.inited_apart ho₁ h₁ hk₂)
    · rw [Function.update_of_ne ho₁] at h₁
      rw [Function.update_of_ne ho₂] at h₂
      rw [inited_of_ne ho₁] at hk₁
      rw [inited_of_ne ho₂] at hk₂
      exact h.apart o₁ o₂ ret₁ ret₂ k h₁ h₂ hk₁ hk₂

end Init

section Destroy

variable {ret : Int}

theorem destroyedObj_of_ne {o' : Obj} (ho : o' ≠ o) :
    (s.destroyedObj o ret).objs o' = s.objs o' := Function.update_of_ne ho _ s.objs

theorem gone_destroyedObj : Gone (s.destroyedObj o ret) o := by
  have hself : (s.destroyedObj o ret).objs o = { s.objs o with init := false } :=
    Function.update_self o _ s.objs
  constructor
  · rw [hself]
  · intro k hk
    rw [hself] at hk
    exact List.mem_append_right _ (Option.mem_toList.mpr hk)

/-- The first `destroy` after an `init`. -/
theorem Inv.destroy (h : Inv s ph) {r : Int} (hr : ph o = .inited r) :
    Inv (s.destroyedObj o ret) (Function.update ph o .destroyed) := by
  -- the other objects are in the phase they were in
  have hne : ∀ {o' r'}, Function.update ph o .destroyed o' = .inited r' →
      o' ≠ o ∧ ph o' = .inited r' := by
    intro o' r' hph
    by_cases ho : o' = o
    · subst ho
      rw [Function.update_self] at hph
      cases hph
    · rw [Function.update_of_ne ho] at hph
      exact ⟨ho, hph⟩
  constructor
  · intro k hk
    rcases List.mem_append.mp hk with hk | hk
    · exact h.freed_lt k hk
    · exact ((h.inited o r hr).marker k (Option.mem_toList.mp hk)).1
  · intro o' r' hph
    obtain ⟨ho, hph⟩ := hne hph
    apply (h.inited o' r' hph).frame (destroyedObj_of_ne ho) (Nat.le_refl _)
    · exact lastCall_append_of_ne fun heq => ho heq.symm
    · -- a marker belongs to one object only, so that of `o'` is not freed
      intro k hk hnot hmem
      rcases List.mem_append.mp hmem with hmem | hmem
      · exact hnot hmem
      · exact ho (h.apart o' o r' r k hph hr hk (Option.mem_toList.mp hmem))
  · intro o' hph
    by_cases ho : o' = o
    · subst ho
      exact gone_destroyedObj
    · rw [Function.update_of_ne ho] at hph
      exact (h.destroyed o' hph).frame (destroyedObj_of_ne ho) (List.subset_append_left _ _)
  · intro o₁ o₂ r₁ r₂ k h₁ h₂ hk₁ hk₂
    obtain ⟨ho₁, h₁⟩ := hne h₁
    obtain ⟨ho₂, h₂⟩ := hne h₂
    rw [destroyedObj_of_ne ho₁] at hk₁
    rw [destroyedObj_of_ne ho₂] at hk₂
    exact h.apart o₁ o₂ r₁ r₂ k h₁ h₂ hk₁ hk₂

theorem staleLeak_eq {k : ℕ} (hk : staleLeak s o = some k) :
    o = .cond ∧ (s.objs o).testLeak = some k := by
  cases o with
  | lock => cases hk
  | cond => exact ⟨rfl, hk⟩

/-- Another `destroy`: what it frees, if anything, is freed already. -/
theorem Inv.destroy_again (h : Inv s ph) (hph : ph o = .destroyed) : Inv (s.freeStale o) ph := by
  have hstale : ∀ k, k ∈ (staleLeak s o).toList → k ∈ s.freed := by
    intro k hk
    exact (h.destroyed o hph).marker k (staleLeak_eq (Option.mem_toList.mp hk)).2
  have hfreed : ∀ k, k ∈ (s.freeStale o).freed → k ∈ s.freed := by
    intro k hk
    exact (List.mem_append.mp hk).elim id (hstale k)
  have hobj : ∀ o', (s.freeStale o).objs o' = s.objs o' := fun _ => rfl
  constructor
  · exact fun k hk => h.freed_lt k (hfreed k hk)
  · intro o' r' hph
    apply (h.inited o' r' hph).frame (hobj o') (Nat.le_refl _) rfl
    exact fun k _ hnot hk => hnot (hfreed k hk)
  · intro o' hph
    exact (h.destroyed o' hph).frame (hobj o') (List.subset_append_left _ _)
  · exact h.apart

end Destroy

/-! ### Runs -/

/-- No `destroy` after an `init` that failed, and no second one of a condition that has a
marker. -/
def Careful (x : Sys × (Obj → Phase)) : Action → Prop
  | .init .. => True
  | .destroy o _ => (∀ ret, x.2 o = .inited ret → ret = 0) ∧
    (o = .cond → x.2 o = .destroyed → (x.1.objs o).testLeak = none)

theorem safe_inited {mallocOk : Bool} {ret : Int} : (s.inited o mallocOk ret).Safe ↔ s.Safe := by
  rw [safe_iff, safe_iff]
  exact and_congr_right fun _ => onlyUsable_init ret

theorem Inv.safe_destroy (h : Inv s ph) {r ret : Int} (hr : ph o = .inited r) :
    (s.destroyedObj o ret).Safe ↔ s.Safe ∧ r = 0 := by
  have hown := h.inited o r hr
  have hfreed : (s.destroyedObj o ret).freed.Nodup ↔ s.freed.Nodup :=
    nodup_append_toList.trans ⟨fun hn => hn.1, fun hn => ⟨hn, fun k hk => (hown.marker k hk).2⟩⟩
  have husable : Usable o s.calls ↔ r = 0 := by
    rw [Usable, hown.last]
    simp
  rw [safe_iff, safe_iff, hfreed, and_assoc]
  apply and_congr_right
  intro _
  rw [← husable]
  exact onlyUsable_destroy ret

theorem Inv.safe_destroy_again (h : Inv s ph) (hph : ph o = .destroyed) :
    (s.freeStale o).Safe ↔ s.Safe ∧ (o = .cond → (s.objs o).testLeak = none) := by
  have hfreed : (s.freeStale o).freed.Nodup ↔
      s.freed.Nodup ∧ (o = .cond → (s.objs o).testLeak = none) := by
    refine nodup_append_toList.trans (and_congr_right fun _ => ?_)
    constructor
    · -- a marker that is still there was freed by the destroy before
      intro hnot ho
      subst ho
      cases hk : (s.objs .cond).testLeak with
      | none => rfl
      | some k => exact absurd ((h.destroyed .cond hph).marker k hk) (hnot k hk)
    · intro hnone k hk
      obtain ⟨ho, hk⟩ := staleLeak_eq hk
      rw [hnone ho] at hk
      cases hk
  rw [safe_iff, safe_iff, hfreed]
  exact and_right_comm

/-- One call spoils the record exactly when it is not careful. -/
theorem lifecycle_step {x : Sys × (Obj → Phase)} (h : Inv x.1 x.2) {a : Action}
    (hpre : lifecycle.Pre x a) : ∃ r x', lifecycle.step x a = .ok (r, x') ∧ Inv x'.1 x'.2 ∧
      (x'.1.Safe ↔ x.1.Safe ∧ Careful x a) := by
  obtain ⟨s, ph⟩ := x
  obtain ⟨-, hmay⟩ := hpre
  refine ⟨(exec s a).1, ((exec s a).2, nextPhase ph s a), rfl, ?_⟩
  show Inv (exec s a).2 (nextPhase ph s a) ∧
    ((exec s a).2.Safe ↔ s.Safe ∧ Careful (s, ph) a)
  unfold nextPhase
  cases a with
  | init o mallocOk ret =>
    rw [exec_init]
    exact ⟨h.init, safe_inited.trans (iff_of_eq (and_true _).symm)⟩
  | destroy o ret =>
    -- a destroy finds what the last init returned, or frees what the one before it freed
    cases hph : ph o with
    | never => exact absurd hph hmay
    | inited r =>
      have hcareful : Careful (s, ph) (.destroy o ret) ↔ r = 0 := by
        simp [Careful, hph]
      rw [exec_destroy (h.inited o r hph).flag, hcareful]
      exact ⟨h.destroy hph, h.safe_destroy hph⟩
    | destroyed =>
      have hcareful : Careful (s, ph) (.destroy o ret) ↔
          (o = .cond → (s.objs o).testLeak = none) := by
        simp [Careful, hph]
      have hsame : Function.update ph o .destroyed = ph := by
        rw [← hph, Function.update_eq_self]
      rw [exec_destroy_again (h.destroyed o hph).flag, hcareful]
      refine ⟨?_, h.safe_destroy_again hph⟩
      show Inv (s.freeStale o) (Function.update ph o .destroyed)
      rw [hsame]
      exact h.destroy_again hph

theorem safe_start (objs : Obj → BtObj) : (Sys.start objs).Safe := by
  refine safe_iff.mpr ⟨List.nodup_nil, ?_⟩
  intro pre o ret post h
  cases pre <;> cases h

/-- Whatever the objects held at first and whatever fails, a run is safe exactly when all its
calls are careful. -/
theorem lifecycle_safe_iff (objs : Obj → BtObj) {as : List Action}
    (has : lifecycle.Admissible (Sys.start objs, fun _ => .never) as) :
    ∃ rs x, lifecycle.run (Sys.start objs, fun _ => .never) as = .ok (rs, x) ∧
      (x.1.Safe ↔
        (lifecycle.restrict Careful).Admissible (Sys.start objs, fun _ => .never) as) := by
  obtain ⟨rs, x, hrun, hsafe⟩ := Machine.run_good_iff
    (fun (x : Sys × (Obj → Phase)) a (h : Inv x.1 x.2) hpre => lifecycle_step h hpre)
    (inv_start objs) has
  refine ⟨rs, x, hrun, hsafe.trans ?_⟩
  exact ⟨fun h => h.2, fun h => ⟨safe_start objs, h⟩⟩

/-- A lock is destroyed twice and the condition used again; `malloc` fails once. -/
def tidy : List Action :=
  [.init .lock true 0, .init .cond true 0, .destroy .lock 0, .destroy .lock 0, .destroy .cond 0,
    .init .cond false 0]

/-- The memory of the objects is not cleared before the first call. -/
def untouched : Sys × (Obj → Phase) := (Sys.start fun _ => ⟨true, some 7⟩, fun _ => .never)

theorem tidy_admissible : lifecycle.Admissible untouched tidy := by
  refine Machine.admissible_cons ⟨trivial, fun ret h => by cases h⟩ rfl ?_
  refine Machine.admissible_cons ⟨trivial, fun ret h => by cases h⟩ rfl ?_
  refine Machine.admissible_cons ⟨trivial, fun h => by cases h⟩ rfl ?_
  refine Machine.admissible_cons ⟨trivial, fun h => by cases h⟩ rfl ?_
  refine Machine.admissible_cons ⟨trivial, fun h => by cases h⟩ rfl ?_
  exact Machine.admissible_cons ⟨trivial, fun ret h => by cases h⟩ rfl trivial

theorem lifecycle_safe_iff_tidy : ∃ rs x, lifecycle.run untouched tidy = .ok (rs, x) ∧
    (x.1.Safe ↔ (lifecycle.restrict Careful).Admissible untouched tidy) :=
  lifecycle_safe_iff (fun _ => ⟨true, some 7⟩) tidy_admissible

/-- A condition is destroyed twice; a lock is destroyed after `pthread_mutex_init` failed. -/
theorem lifecycle_unsafe :
    (lifecycle.Admissible untouched [.init .cond true 0, .destroy .cond 0, .destroy .cond 0] ∧
      ∃ rs x, lifecycle.run untouched [.init .cond true 0, .destroy .cond 0, .destroy .cond 0]
        = .ok (rs, x) ∧ x.1.freed = [0, 0] ∧ ¬x.1.Safe) ∧
    (lifecycle.Admissible untouched [.init .lock true 11, .destroy .lock 0] ∧
      ∃ rs x, lifecycle.run untouched [.init .lock true 11, .destroy .lock 0] = .ok (rs, x) ∧
        x.1.calls = [.init .lock 11, .destroy .lock 0] ∧ ¬x.1.Safe) := by
  constructor
  · constructor
    · refine Machine.admissible_cons ⟨trivial, fun ret h => by cases h⟩ rfl ?_
      refine Machine.admissible_cons ⟨trivial, fun h => by cases h⟩ rfl ?_
      exact Machine.admissible_cons ⟨trivial, fun h => by cases h⟩ rfl trivial
    · refine ⟨_, _, rfl, rfl, fun hsafe => ?_⟩
      exact absurd hsafe.freed (by decide)
  · constructor
    · refine Machine.admissible_cons ⟨trivial, fun ret h => by cases h⟩ rfl ?_
      exact Machine.admissible_cons ⟨trivial, fun h => by cases h⟩ rfl trivial
    · refine ⟨_, _, rfl, rfl, fun hsafe => ?_⟩
      have husable := hsafe.destroyed [.init .lock 11] .lock 0 [] rfl
      exact absurd husable (by decide)

end Bluetea.Mutex
