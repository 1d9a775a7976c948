import Bluetea.Mutex.Equiv.CondMoves

/-!
# The invariant of the two threads that take turns

A turn is passed on under the lock (`Places`), and a thread sleeps only while the signal that ends its
sleep is still to come (`Sleeps`).  Every step keeps both, and so does a waking for no reason.
-/

namespace Bluetea.Mutex.BasicCond

open Monitor Function

variable {total : ℕ} {s s' : State Thread Loc Data} {t u : Thread} {l l' : Loc} {d d' : Data}

/-- Who may be where: a turn begins after the one before it. -/
structure Places (total : ℕ) (s : State Thread Loc Data) : Prop where
  main_place : place .main (s.loc .main) < 15
  child_place : place .child (s.loc .child) < 15
  ok : ∀ t, Ok total s.data (s.loc t)
  num : s.data.condVar.toNat = counted total .main (s.loc .main) + counted total .child (s.loc .child)
  second : 6 ≤ place .main (s.loc .main) → 4 ≤ place .child (s.loc .child)
  third : 7 ≤ place .child (s.loc .child) → 9 ≤ place .main (s.loc .main)
  start : s.data.start = true ↔ 1 ≤ place .child (s.loc .child)
  made : Made s.data (place .main (s.loc .main))
  joined : 11 ≤ place .main (s.loc .main) → place .child (s.loc .child) = 10

/-- Who may sleep where: while a thread sleeps the signal for it is still to come. -/
structure Sleeps (s : State Thread Loc Data) : Prop where
  main_status : s.status .main ≠ .fresh
  child_status : s.status .child = .fresh ↔ place .main (s.loc .main) ≤ 2
  fresh_begin : place .main (s.loc .main) ≤ 2 → place .child (s.loc .child) = 0
  main_asleep : s.status .main ≠ .running → place .main (s.loc .main) = 5
  child_asleep : s.status .child ≠ .running → s.status .child ≠ .fresh →
    place .child (s.loc .child) = 6
  signal_first : s.status .main = .waiting → place .child (s.loc .child) ≤ 4
  signal_second : s.status .child = .waiting → place .main (s.loc .main) ≤ 9

structure Inv (total : ℕ) (s : State Thread Loc Data) : Prop where
  owned : Owned Inside s
  places : Places total s
  sleeps : Sleeps s

theorem owned_start : Owned Inside start := by
  refine ⟨fun t => ?_, fun t => ?_, fun t => ?_⟩ <;> cases t <;> simp [start, Inside]

theorem inv_start (total : ℕ) : Inv total start := by
  refine ⟨owned_start, ?_, ?_⟩
  · constructor <;> simp [start, place, counted, Made, Ok]
    rintro (_ | _) <;> trivial
  · constructor <;> simp [start, place]

/-! ### The turns -/

theorem counted_le (hok : Ok total d l) :
    counted total .main l ≤ total ∧ counted total .child l ≤ 2 * total := by
  cases l with
  | incr p i =>
    have hle := hok.2
    cases p <;> simp only [counted] <;> omega
  | store p i v =>
    have hle := hok.2.1
    cases p <;> simp only [counted] <;> omega
  | _ =>
    simp only [counted]
    constructor
    · split <;> omega
    · split
      · omega
      · split <;> omega

theorem condVar_eq {n : ℕ} (h : d.condVar = UInt64.ofNat n) (hn : n < 2 ^ 64) :
    d.condVar.toNat = n := by
  rw [h, UInt64.toNat_ofNat']
  exact Nat.mod_eq_of_lt hn

theorem condVar_ne {n : ℕ} (h : d.condVar ≠ UInt64.ofNat n) : d.condVar.toNat ≠ n := by
  rintro rfl
  exact h (UInt64.ofNat_toNat).symm

/-- A thread inside the lock runs, unless it is at a `test`. -/
theorem Inv.running_of_inside (h : Inv total s) (hin : Inside t (s.loc t))
    (htest : ∀ p, s.loc t ≠ .test p) : s.status t = .running := by
  by_contra hrun
  have hfresh : s.status t ≠ .fresh := fun hf => h.owned.fresh t hf hin
  cases t with
  | main => exact htest .second (loc_of_place_main.2.1 (h.sleeps.main_asleep hrun))
  | child => exact htest .third (loc_of_place_child.2.1 (h.sleeps.child_asleep hrun hfresh))

/-- The test and its thread are not both inside the lock and awake. -/
theorem Inv.not_both (h : Inv total s) (hmain : Inside .main (s.loc .main))
    (hmain_run : s.status .main = .running) (hchild : Inside .child (s.loc .child))
    (hchild_run : s.status .child = .running) : False := by
  have heq := h.owned.mutual_exclusion ⟨hmain_run, hmain⟩ ⟨hchild_run, hchild⟩
  cases heq

/-- The numbers that other threads have read stay right: they read inside the lock. -/
theorem Inv.ok_of_move (h : Inv total s) (hrun : s.status t = .running)
    (hplace : place t (s.loc t) < 15) (hmove : Move total s.data (s.loc t) l s'.data)
    (hloc : s'.loc = update s.loc t l) (u : Thread) : Ok total s'.data (s'.loc u) := by
  have hok := h.places.ok u
  obtain ⟨hok', hnum⟩ := hmove.adds (h.places.ok t) hplace
  rw [hloc]
  by_cases hu : u = t
  · rw [hu, update_self]
    exact hok'
  · rw [update_of_ne hu]
    cases hl : s.loc u with
    | store p i v =>
      rw [hl] at hok
      rcases hnum with ⟨hnum, -⟩ | ⟨hin, -⟩
      · exact ⟨hok.1, hok.2.1, hok.2.2.trans hnum.symm⟩
      · have hinside : Inside u (s.loc u) := by
          rw [hl]
          trivial
        have hurun := h.running_of_inside hinside (by rw [hl]; simp)
        exact absurd (h.owned.mutual_exclusion ⟨hurun, hinside⟩ ⟨hrun, hin⟩) hu
    | _ =>
      rw [hl] at hok
      exact hok

/-- The second turn begins when the first one is over. -/
theorem Inv.pass_second (h : Inv total s) (hpos : 0 < total) (hlt : 3 * total < 2 ^ 64)
    (hrun : s.status .main = .running) (hl : s.loc .main = .test .second)
    (hgoal : s.data.condVar = UInt64.ofNat (goal total .second)) :
    4 ≤ place .child (s.loc .child) := by
  obtain ⟨hp, hs⟩ := h.places, h.sleeps
  have hmain : place .main (s.loc .main) = 5 := by rw [hl]; rfl
  have hnum := hp.num
  have hzero := (counted_main total hp.main_place).1 (by omega)
  have hchild := counted_child total hp.child_place
  rw [condVar_eq hgoal (by simp only [goal]; omega), hzero] at hnum
  by_contra hlt4
  by_cases hone : place .child (s.loc .child) ≤ 1
  · -- the thread has not counted yet
    rw [hchild.1 hone] at hnum
    simp only [goal] at hnum
    omega
  · -- the thread is inside the lock
    have hin : Inside .child (s.loc .child) := (inside_child hp.child_place).mpr (by omega)
    refine h.not_both (by rw [hl]; trivial) hrun hin (h.running_of_inside hin fun p hp' => ?_)
    rw [hp'] at hone hlt4
    cases p <;> simp [place] at hone hlt4

/-- The third turn begins when the second one is over. -/
theorem Inv.pass_third (h : Inv total s) (hpos : 0 < total) (hlt : 3 * total < 2 ^ 64)
    (hrun : s.status .child = .running) (hl : s.loc .child = .test .third)
    (hgoal : s.data.condVar = UInt64.ofNat (goal total .third)) :
    9 ≤ place .main (s.loc .main) := by
  obtain ⟨hp, hs⟩ := h.places, h.sleeps
  have hchild : place .child (s.loc .child) = 6 := by rw [hl]; rfl
  have hnum := hp.num
  have hcounted := (counted_child total hp.child_place).2.1 (by omega) (by omega)
  have hmain := counted_main total hp.main_place
  rw [condVar_eq hgoal (by simp only [goal]; omega), hcounted] at hnum
  by_contra hlt9
  by_cases hsix : place .main (s.loc .main) ≤ 6
  · -- the test has not counted yet
    rw [hmain.1 hsix] at hnum
    simp only [goal] at hnum
    omega
  · -- the test is inside the lock
    have hin : Inside .main (s.loc .main) := (inside_main hp.main_place).mpr (by omega)
    refine h.not_both hin (h.running_of_inside hin fun p hp' => ?_) (by rw [hl]; trivial) hrun
    rw [hp'] at hsix hlt9
    cases p <;> simp [place] at hsix hlt9

theorem toNat_add_one {n : UInt64} (h : n.toNat + 1 < 2 ^ 64) : (n + 1).toNat = n.toNat + 1 := by
  rw [UInt64.toNat_add]
  exact Nat.mod_eq_of_lt h

section Step

variable (h : Inv total s) (hpos : 0 < total) (hlt : 3 * total < 2 ^ 64)

include h hpos hlt

theorem Inv.places_main (hrun : s.status .main = .running)
    (hmove : Move total s.data (s.loc .main) l s'.data) (hloc : s'.loc = update s.loc .main l)
    (hjoin : s.loc .main = .join → s.loc .child = .exit)
    (htest : ∀ p, s.loc .main = .test p → l = .before p) : Places total s' := by
  have hp := h.places
  have hmain : s'.loc .main = l := by rw [hloc, update_self]
  have hchild : s'.loc .child = s.loc .child := by rw [hloc, update_of_ne (by simp)]
  have hok := h.ok_of_move hrun hp.main_place hmove hloc
  obtain ⟨hplace, hstep⟩ := hmove.place_le hp.main_place
  obtain ⟨hstart, hmade⟩ := hmove.main hp.main_place hp.made
  refine ⟨hmain ▸ hplace, hchild ▸ hp.child_place, hok, ?_, ?_, ?_, ?_, hmain ▸ hmade, ?_⟩
  · -- what a move adds to the number it also adds to what has been counted
    have hnum := hp.num
    have hle := counted_le (hok .main)
    have hle' := counted_le (hok .child)
    rw [hmain] at hle
    rw [hmain, hchild]
    rw [hchild] at hle'
    rcases (hmove.adds (hp.ok .main) hp.main_place).2 with ⟨hsame, hcount⟩ | ⟨-, hadd, hcount⟩
    · rw [hsame, hcount, hnum]
    · rw [hadd, toNat_add_one (by omega), hcount, hnum]
      omega
  · rw [hmain, hchild]
    intro hsix
    by_cases hold : 6 ≤ place .main (s.loc .main)
    · exact hp.second hold
    · -- the test gets to place 6 from its own test only, which has been passed
      have hl := loc_of_place_main.2.1 (show place .main (s.loc .main) = 5 by omega)
      rw [htest _ hl, hl] at hmove
      generalize s'.data = d' at hmove
      cases hmove with
      | pass hgoal => exact h.pass_second hpos hlt hrun hl hgoal
  · rw [hmain, hchild]
    intro hseven
    have hnine := hp.third hseven
    omega
  · rw [hchild, hstart]
    exact hp.start
  · rw [hmain, hchild]
    intro heleven
    by_cases hold : 11 ≤ place .main (s.loc .main)
    · exact hp.joined hold
    · -- it gets to place 11 from the join only
      have hl := loc_of_place_main.2.2.2 (show place .main (s.loc .main) = 10 by omega)
      rw [hjoin hl]
      rfl

theorem Inv.places_child (hrun : s.status .child = .running)
    (hmove : Move total s.data (s.loc .child) l s'.data) (hloc : s'.loc = update s.loc .child l)
    (htest : ∀ p, s.loc .child = .test p → l = .before p) : Places total s' := by
  have hp := h.places
  have hmain : s'.loc .main = s.loc .main := by rw [hloc, update_of_ne (by simp)]
  have hchild : s'.loc .child = l := by rw [hloc, update_self]
  have hok := h.ok_of_move hrun hp.child_place hmove hloc
  obtain ⟨hplace, hstep⟩ := hmove.place_le hp.child_place
  obtain ⟨hlock, hcond, hone, hstart, hbegin⟩ := hmove.child hp.child_place
  refine ⟨hmain ▸ hp.main_place, hchild ▸ hplace, hok, ?_, ?_, ?_, ?_, ?_, ?_⟩
  · -- what a move adds to the number it also adds to what has been counted
    have hnum := hp.num
    have hle := counted_le (hok .main)
    have hle' := counted_le (hok .child)
    rw [hmain] at hle
    rw [hmain, hchild]
    rw [hchild] at hle'
    rcases (hmove.adds (hp.ok .child) hp.child_place).2 with ⟨hsame, hcount⟩ | ⟨-, hadd, hcount⟩
    · rw [hsame, hcount, hnum]
    · rw [hadd, toNat_add_one (by omega), hcount, hnum]
      omega
  · rw [hmain, hchild]
    intro hsix
    have hfour := hp.second hsix
    omega
  · rw [hmain, hchild]
    intro hseven
    by_cases hold : 7 ≤ place .child (s.loc .child)
    · exact hp.third hold
    · -- the thread gets to place 7 from its own test only, which has been passed
      have hl := loc_of_place_child.2.1 (show place .child (s.loc .child) = 6 by omega)
      rw [htest _ hl, hl] at hmove
      generalize s'.data = d' at hmove
      cases hmove with
      | pass hgoal => exact h.pass_third hpos hlt hrun hl hgoal
  · rw [hchild]
    by_cases hold : 1 ≤ place .child (s.loc .child)
    · rw [hstart hold, hp.start]
      exact ⟨fun _ => hone, fun _ => hold⟩
    · exact ⟨fun _ => hone, fun _ => hbegin (by omega)⟩
  · rw [hmain]
    unfold Made
    rw [hcond, hlock]
    exact hp.made
  · rw [hmain, hchild]
    intro heleven
    -- a thread that has been joined makes no move
    have hl := loc_of_place_child.2.2 (hp.joined heleven)
    rw [hl] at hmove
    cases hmove

end Step

/-- The test waits only before the thread has sent its signal. -/
theorem Inv.wait_second (h : Inv total s) (hl : s.loc .main = .test .second)
    (hgoal : s.data.condVar ≠ UInt64.ofNat (goal total .second)) :
    place .child (s.loc .child) ≤ 4 := by
  have hp := h.places
  have hmain : place .main (s.loc .main) = 5 := by rw [hl]; rfl
  have hnum := hp.num
  rw [(counted_main total hp.main_place).1 (by omega)] at hnum
  by_contra hsent
  have hthird := hp.third
  have hcounted := (counted_child total hp.child_place).2.1 (by omega) (by omega)
  rw [hcounted, Nat.zero_add] at hnum
  exact condVar_ne hgoal hnum

/-- The thread waits only before the test has sent its signal. -/
theorem Inv.wait_third (h : Inv total s) (hl : s.loc .child = .test .third)
    (hgoal : s.data.condVar ≠ UInt64.ofNat (goal total .third)) :
    place .main (s.loc .main) ≤ 9 := by
  have hp := h.places
  have hchild : place .child (s.loc .child) = 6 := by rw [hl]; rfl
  have hnum := hp.num
  rw [(counted_child total hp.child_place).2.1 (by omega) (by omega)] at hnum
  by_contra hsent
  rw [(counted_main total hp.main_place).2 (by omega), ← Nat.two_mul] at hnum
  exact condVar_ne hgoal hnum

/-- `Sleeps` after a move of the test that leaves the statuses of both alone but for that of the
thread. -/
theorem Inv.sleeps_main (h : Inv total s)
    (hmove : Move total s.data (s.loc .main) l s'.data) (hloc : s'.loc = update s.loc .main l)
    (hmain_run : s'.status .main = .running)
    (hfresh : s'.status .child = .fresh ↔ place .main l ≤ 2)
    (hasleep : s'.status .child ≠ .running → s'.status .child ≠ .fresh →
      place .child (s.loc .child) = 6)
    (hwaiting : s'.status .child = .waiting → place .main l ≤ 9) : Sleeps s' := by
  have hs := h.sleeps
  have hmain : s'.loc .main = l := by rw [hloc, update_self]
  have hchild : s'.loc .child = s.loc .child := by rw [hloc, update_of_ne (by simp)]
  obtain ⟨-, hstep⟩ := hmove.place_le h.places.main_place
  refine ⟨by rw [hmain_run]; simp, hmain ▸ hfresh, ?_, fun hne => absurd hmain_run hne,
    hchild ▸ hasleep, fun hw => ?_, hmain ▸ hwaiting⟩
  · rw [hmain, hchild]
    intro hle
    exact hs.fresh_begin (by omega)
  · rw [hmain_run] at hw
    cases hw

/-- `Sleeps` after a move of the thread. -/
theorem Inv.sleeps_child (h : Inv total s) (hrun : s.status .child = .running)
    (hloc : s'.loc = update s.loc .child l) (hchild_run : s'.status .child = .running)
    (hfresh : s'.status .main ≠ .fresh)
    (hasleep : s'.status .main ≠ .running → place .main (s.loc .main) = 5)
    (hwaiting : s'.status .main = .waiting → place .child l ≤ 4) : Sleeps s' := by
  have hs := h.sleeps
  have hmain : s'.loc .main = s.loc .main := by rw [hloc, update_of_ne (by simp)]
  have hchild : s'.loc .child = l := by rw [hloc, update_self]
  have hlate : ¬place .main (s.loc .main) ≤ 2 := by
    rw [← hs.child_status, hrun]
    simp
  refine ⟨hfresh, ?_, ?_, hmain ▸ hasleep, fun hne => absurd hchild_run hne, hchild ▸ hwaiting,
    fun hw => ?_⟩
  · rw [hmain, hchild_run]
    simpa using hlate
  · rw [hmain]
    exact fun hle => absurd hle hlate
  · rw [hchild_run] at hw
    cases hw

/-- `Sleeps` when no thread moves. -/
theorem Sleeps.of_status (hs : Sleeps s) (hloc : s'.loc = s.loc)
    (hmain : s'.status .main ≠ .fresh) (hchild : s'.status .child = .fresh ↔ s.status .child = .fresh)
    (hmain_asleep : s'.status .main ≠ .running → place .main (s.loc .main) = 5)
    (hchild_asleep : s'.status .child ≠ .running → s'.status .child ≠ .fresh →
      place .child (s.loc .child) = 6)
    (hfirst : s'.status .main = .waiting → place .child (s.loc .child) ≤ 4)
    (hsecond : s'.status .child = .waiting → place .main (s.loc .main) ≤ 9) : Sleeps s' := by
  obtain ⟨loc, status, owner, data⟩ := s'
  subst hloc
  exact ⟨hmain, hchild.trans hs.child_status, hs.fresh_begin, hmain_asleep, hchild_asleep, hfirst,
    hsecond⟩

theorem Places.congr (hp : Places total s) (hloc : s'.loc = s.loc) (hdata : s'.data = s.data) :
    Places total s' := by
  obtain ⟨loc, status, owner, data⟩ := s'
  subst hloc hdata
  exact ⟨hp.main_place, hp.child_place, hp.ok, hp.num, hp.second, hp.third, hp.start, hp.made,
    hp.joined⟩

/-- A wait. -/
theorem Inv.sleeps_wait {p : Turn} (h : Inv total s) (hrun : s.status t = .running)
    (hl : s.loc t = .test p) (hgoal : s.data.condVar ≠ UInt64.ofNat (goal total p))
    (hloc : s'.loc = s.loc) (hstatus : s'.status = update s.status t .waiting) : Sleeps s' := by
  obtain ⟨hp, hs⟩ := h.places, h.sleeps
  cases t with
  | main =>
    -- by its place, the test is at the test of the second turn
    obtain rfl : p = .second := by
      have hplace := hp.main_place
      rw [hl] at hplace
      cases p with
      | second => rfl
      | first => simp [place] at hplace
      | third => simp [place] at hplace
    refine hs.of_status hloc ?_ ?_ ?_ ?_ ?_ ?_
    · simp [hstatus]
    · simp [hstatus]
    · intro _
      rw [hl]
      rfl
    · simpa [hstatus] using hs.child_asleep
    · exact fun _ => h.wait_second hl hgoal
    · simpa [hstatus] using hs.signal_second
  | child =>
    -- and the thread at that of the third
    obtain rfl : p = .third := by
      have hplace := hp.child_place
      rw [hl] at hplace
      cases p with
      | third => rfl
      | first => simp [place] at hplace
      | second => simp [place] at hplace
    refine hs.of_status hloc ?_ ?_ ?_ ?_ ?_ ?_
    · simpa [hstatus] using hs.main_status
    · simp [hstatus, hrun]
    · simpa [hstatus] using hs.main_asleep
    · intro _ _
      rw [hl]
      rfl
    · simpa [hstatus] using hs.signal_first
    · exact fun _ => h.wait_third hl hgoal

/-- A thread that sleeps is woken, or it goes on. -/
theorem Sleeps.wake {x : Status} (hs : Sleeps s) (hold : s.status t = .waiting ∨ s.status t = .woken)
    (hx : x = .woken ∨ x = .running) (hloc : s'.loc = s.loc)
    (hstatus : s'.status = update s.status t x) : Sleeps s' := by
  have hxw : x ≠ .waiting ∧ x ≠ .fresh := by
    rcases hx with rfl | rfl <;> simp
  have hne : s.status t ≠ .running ∧ s.status t ≠ .fresh := by
    rcases hold with hold | hold <;> simp [hold]
  cases t with
  | main =>
    refine hs.of_status hloc ?_ ?_ (fun _ => hs.main_asleep hne.1) ?_ ?_ ?_
    · simpa [hstatus] using hxw.2
    · simp [hstatus]
    · simpa [hstatus] using hs.child_asleep
    · intro hw
      rw [hstatus, update_self] at hw
      exact absurd hw hxw.1
    · simpa [hstatus] using hs.signal_second
  | child =>
    refine hs.of_status hloc ?_ ?_ ?_ (fun _ _ => hs.child_asleep hne.1 hne.2) ?_ ?_
    · simpa [hstatus] using hs.main_status
    · simp [hstatus, hxw.2, hne.2]
    · simpa [hstatus] using hs.main_asleep
    · simpa [hstatus] using hs.signal_first
    · intro hw
      rw [hstatus, update_self] at hw
      exact absurd hw hxw.1

/-- What one step keeps. -/
theorem Inv.step (h : Inv total s) (hpos : 0 < total) (hlt : 3 * total < 2 ^ 64)
    (hstep : Step (code total) s s') : Inv total s' := by
  obtain ⟨howned, hp, hs⟩ := h
  have h : Inv total s := ⟨howned, hp, hs⟩
  have howned' := discipline.step howned hstep
  cases effect_of_step hstep with
  | move t l hrun hmove hloc hstatus hcreate hjoin htest hsignal howner =>
    cases t with
    | main =>
      obtain ⟨-, hnext⟩ := hmove.place_le hp.main_place
      -- `create` is a case of its own
      have htwo : place .main (s.loc .main) ≠ 2 := fun hl => hcreate (loc_of_place_main.1 hl)
      refine ⟨howned', h.places_main hpos hlt hrun hmove hloc hjoin htest,
        h.sleeps_main hmove hloc ?_ ?_ ?_ ?_⟩
      · rw [hstatus, hrun]
      · rw [hstatus, hs.child_status]
        omega
      · rw [hstatus]
        exact hs.child_asleep
      · -- the thread is asleep, so the test has not passed the signal; at the signal it would wake it
        rw [hstatus]
        intro hw
        have hnine := hs.signal_second hw
        have hne : place .main (s.loc .main) ≠ 9 := fun hl =>
          hsignal _ (loc_of_place_main.2.2.1 hl) .child hw
        omega
    | child =>
      obtain ⟨-, hnext⟩ := hmove.place_le hp.child_place
      refine ⟨howned', h.places_child hpos hlt hrun hmove hloc htest,
        h.sleeps_child hrun hloc ?_ ?_ ?_ ?_⟩
      · rw [hstatus, hrun]
      · rw [hstatus]
        exact hs.main_status
      · rw [hstatus]
        exact hs.main_asleep
      · -- the same with the test asleep
        rw [hstatus]
        intro hw
        have hfour := hs.signal_first hw
        have hne : place .child (s.loc .child) ≠ 4 := fun hl =>
          hsignal _ (loc_of_place_child.1 hl) .main hw
        omega
  | wait t p hrun hl hgoal hloc hdata hstatus =>
    exact ⟨howned', hp.congr hloc hdata, h.sleeps_wait hrun hl hgoal hloc hstatus⟩
  | resume t hwoken hloc hdata hstatus =>
    exact ⟨howned', hp.congr hloc hdata, hs.wake (Or.inr hwoken) (Or.inr rfl) hloc hstatus⟩
  | signal t u p hrun hl hwaiting hloc hdata hstatus =>
    have hmove : Move total s.data (s.loc t) (afterSignal p) s'.data := by
      rw [hl, hdata]
      exact .signal
    have htest : ∀ p', s.loc t = .test p' → afterSignal p = .before p' := by simp [hl]
    have hut : u ≠ t := by
      rintro rfl
      rw [hrun] at hwaiting
      cases hwaiting
    cases t with
    | main =>
      obtain rfl : u = .child := by cases u with
        | main => exact absurd rfl hut
        | child => rfl
      -- the only signal of the test is that of the second turn
      have hplace : place .main (s.loc .main) = 9 := by
        have hlt15 := hp.main_place
        rw [hl] at hlt15 ⊢
        cases p <;> simp [place] at hlt15 ⊢
      obtain ⟨-, hnext⟩ := hmove.place_le hp.main_place
      refine ⟨howned', h.places_main hpos hlt hrun hmove hloc (by simp [hl]) htest,
        h.sleeps_main hmove hloc ?_ ?_ ?_ ?_⟩
      · simp [hstatus, hrun]
      · rw [hstatus, update_self]
        simp only [reduceCtorEq, false_iff]
        omega
      · exact fun _ _ => hs.child_asleep (by simp [hwaiting]) (by simp [hwaiting])
      · simp [hstatus]
    | child =>
      obtain rfl : u = .main := by cases u with
        | main => rfl
        | child => exact absurd rfl hut
      refine ⟨howned', h.places_child hpos hlt hrun hmove hloc htest,
        h.sleeps_child hrun hloc ?_ ?_ ?_ ?_⟩
      · simp [hstatus, hrun]
      · simp [hstatus]
      · exact fun _ => hs.main_asleep (by simp [hwaiting])
      · simp [hstatus]
  | create t hrun hl hloc hdata hstatus =>
    cases t with
    | main =>
      have hmove : Move total s.data (s.loc .main) .await s'.data := by
        rw [hl, hdata]
        exact .create
      refine ⟨howned', h.places_main hpos hlt hrun hmove hloc (by simp [hl]) (by simp [hl]),
        h.sleeps_main hmove hloc ?_ ?_ ?_ ?_⟩
      · simp [hstatus, hrun]
      · simp [hstatus, place]
      · simp [hstatus]
      · simp [hstatus]
    | child =>
      -- only the test creates a thread
      have hlt15 := hp.child_place
      rw [hl] at hlt15
      simp [place] at hlt15

theorem Inv.wake (h : Inv total s) (hwake : Spurious s s') : Inv total s' := by
  have howned := h.owned.wake hwake
  cases hwake with
  | @wake t hwaiting =>
    exact ⟨howned, h.places.congr rfl rfl, h.sleeps.wake (Or.inl hwaiting) (Or.inl rfl) rfl rfl⟩

theorem inv_of_reachable (hpos : 0 < total) (hlt : 3 * total < 2 ^ 64)
    (h : Reachable (code total) start s) : Inv total s :=
  h.invariant (inv_start total) (fun _ _ hinv hstep => hinv.step hpos hlt hstep)
    fun _ _ hinv hwake => hinv.wake hwake

end Bluetea.Mutex.BasicCond
