import Bluetea.Machine.Run
import Bluetea.Stack.Basic
import Bluetea.Machine.Bounded

/-!
# The stack refines a bounded LIFO

The list of the items is the part of the array from the stack pointer on (`Sim`).  The stack is
full when nothing is in front of the pointer, and empty when nothing is behind it.
-/

namespace Bluetea.Stack

/-- What a call returns. -/
inductive TssRes
  | val (ret : Int64)
  | count (n : UInt32)
  deriving DecidableEq, Repr

/-- One call. -/
def exec (st : Tstack) : Lifo.Op UInt32 → Except Fault (TssRes × Tstack)
  | .push v => do
    let (ret, st) ← tssPush st v
    return (.val ret, st)
  | .pop => do
    let (ret, st) ← tssPop st
    return (.val ret, st)
  | .count => do
    let n ← tssCount st
    return (.count n, st)

/-- The stack as seen by a program, which may call anything at any time. -/
def tssMachine : Machine Tstack (Lifo.Op UInt32) TssRes Fault where
  step := exec
  Pre _ _ := True

/-- A value that is returned is the item itself, and never `-1`, which stands for a refusal. -/
def TssRes.Means : TssRes → Lifo.Ans UInt32 → Prop
  | val ret, .item v => ret.toInt = v.toNat ∧ ret ≠ -1
  | val ret, .refused => ret = -1
  | count n, .size k => n.toNat = k
  | _, _ => False

/-- The items are in the array from the stack pointer on. -/
structure Sim (cap : UInt32) (st : Tstack) (l : List UInt32) : Prop where
  capacity : st.capacity = cap
  length : st.arr.length = cap.toNat
  sp_le : st.sp ≤ st.capacity
  items : st.arr.drop st.sp.toNat = l

variable {cap : UInt32} {st : Tstack} {l : List UInt32}

theorem Sim.init {memory : Bool} {st st₀ : Tstack} (h : tssInit memory st cap = some st₀) :
    Sim cap st₀ [] := by
  cases memory with
  | false => cases h
  | true =>
    cases h
    exact ⟨rfl, List.length_replicate, UInt32.le_refl _,
      List.drop_eq_nil_of_le (Nat.le_of_eq List.length_replicate)⟩

/-- The number of items. -/
theorem Sim.length_items (h : Sim cap st l) : st.sp.toNat + l.length = cap.toNat := by
  have hle := UInt32.le_iff_toNat_le.mp h.sp_le
  rw [h.capacity] at hle
  rw [← h.items, List.length_drop, h.length]
  omega

/-- Values of 32 bits keep their value, so none of them is `-1`. -/
theorem means_item (v : UInt32) : (TssRes.val (Int64.ofNat v.toNat)).Means (.item v) := by
  have hlt := v.toNat_lt
  have hval : (Int64.ofNat v.toNat).toInt = v.toNat := Int64.toInt_ofNat_of_lt (by omega)
  refine ⟨hval, fun heq => ?_⟩
  have hneg : (-1 : Int64).toInt = -1 := by decide
  rw [heq, hneg] at hval
  omega

theorem tassert_sp (h : Sim cap st l) : tassert (st.sp ≤ st.capacity) = .ok () :=
  if_pos h.sp_le

theorem tssCount_sim (h : Sim cap st l) :
    ∃ n, tssCount st = .ok n ∧ n.toNat = l.length := by
  refine ⟨st.capacity - st.sp, ?_, ?_⟩
  · simp only [tssCount, tassert_sp h, bind, Except.bind]
    rfl
  · have hlength := h.length_items
    rw [UInt32.toNat_sub_of_le _ _ h.sp_le, h.capacity]
    omega

/-- A push: refused when the pointer is at the beginning of the array. -/
theorem tssPush_sim (h : Sim cap st l) (v : UInt32) :
    (cap.toNat ≤ l.length ∧ tssPush st v = .ok (-1, st)) ∨
      (l.length < cap.toNat ∧
        ∃ st', tssPush st v = .ok (Int64.ofNat v.toNat, st') ∧ Sim cap st' (v :: l)) := by
  have hlength := h.length_items
  by_cases hsp : st.sp = 0
  · left
    rw [hsp, UInt32.toNat_zero] at hlength
    refine ⟨by omega, ?_⟩
    simp only [tssPush, tassert_sp h, bind, Except.bind, if_pos hsp]
    rfl
  · right
    have hpos : 0 < st.sp.toNat := UInt32.lt_iff_toNat_lt.mp (UInt32.pos_iff_ne_zero.mpr hsp)
    have hsub : (st.sp - 1).toNat = st.sp.toNat - 1 :=
      UInt32.toNat_sub_of_le _ _ (UInt32.le_iff_toNat_le.mpr hpos)
    have harr := h.length
    have hstore : store st.arr (st.sp - 1) v = .ok (st.arr.set (st.sp - 1).toNat v) := by
      rw [store, Buffer.store, if_pos (by omega)]
      rfl
    refine ⟨by omega, ⟨st.sp - 1, st.capacity, st.arr.set (st.sp - 1).toNat v⟩, ?_, h.capacity,
      ?_, ?_, ?_⟩
    · simp only [tssPush, tassert_sp h, bind, Except.bind, if_neg hsp, hstore]
      rfl
    · rw [List.length_set]
      exact harr
    · have hle := UInt32.le_iff_toNat_le.mp h.sp_le
      exact UInt32.le_iff_toNat_le.mpr (by dsimp only; omega)
    · -- the new item is in front of the others
      rw [← h.items]
      dsimp only
      rw [List.drop_eq_getElem_cons (by rw [List.length_set]; omega), List.getElem_set_self,
        List.drop_set_of_lt (Nat.lt_add_one _), show (st.sp - 1).toNat + 1 = st.sp.toNat by omega]

/-- A pop: refused when the pointer is at the end of the array. -/
theorem tssPop_sim (h : Sim cap st l) :
    (l = [] ∧ tssPop st = .ok (-1, st)) ∨
      ∃ v l' st', l = v :: l' ∧ tssPop st = .ok (Int64.ofNat v.toNat, st') ∧ Sim cap st' l' := by
  have hlength := h.length_items
  have harr := h.length
  by_cases hsp : st.sp = st.capacity
  · left
    rw [hsp, h.capacity] at hlength
    refine ⟨List.eq_nil_of_length_eq_zero (by omega), ?_⟩
    simp only [tssPop, tassert_sp h, bind, Except.bind, if_pos hsp]
    rfl
  · right
    have hlt : st.sp < st.capacity := UInt32.lt_of_le_of_ne h.sp_le hsp
    have hltn := UInt32.lt_iff_toNat_lt.mp hlt
    rw [h.capacity] at hltn
    -- `sp` is below the capacity, so the increment does not wrap
    have hadd : (st.sp + 1).toNat = st.sp.toNat + 1 := by
      have hcap := cap.toNat_lt
      rw [UInt32.toNat_add, show (1 : UInt32).toNat = 1 from rfl, Nat.mod_eq_of_lt (by omega)]
    have hin : st.sp.toNat < st.arr.length := by omega
    have hload : load st.arr st.sp = .ok st.arr[st.sp.toNat] := by
      rw [load, Buffer.load_of_lt hin]
      rfl
    refine ⟨st.arr[st.sp.toNat], st.arr.drop (st.sp.toNat + 1), { st with sp := st.sp + 1 }, ?_, ?_,
      h.capacity, harr, ?_, ?_⟩
    · rw [← h.items]
      exact List.drop_eq_getElem_cons hin
    · simp only [tssPop, tassert_sp h, bind, Except.bind, if_neg hsp, hload]
      rfl
    · rw [UInt32.le_iff_toNat_le, h.capacity, hadd]
      omega
    · rw [hadd]

/-- The step lemma. -/
theorem exec_sim (h : Sim cap st l) (op : Lifo.Op UInt32) :
    ∃ r st', exec st op = .ok (r, st') ∧ r.Means (Lifo.step cap.toNat l op).1 ∧
      Sim cap st' (Lifo.step cap.toNat l op).2 := by
  cases op with
  | push v =>
    rcases tssPush_sim h v with ⟨hfull, hrun⟩ | ⟨hroom, st', hrun, hsim⟩
    · rw [Lifo.step, if_neg (by omega)]
      exact ⟨.val (-1), st, by simp only [exec, hrun, bind, Except.bind]; rfl, rfl, h⟩
    · rw [Lifo.step, if_pos hroom]
      exact ⟨_, st', by simp only [exec, hrun, bind, Except.bind]; rfl, means_item v, hsim⟩
  | pop =>
    rcases tssPop_sim h with ⟨rfl, hrun⟩ | ⟨v, l', st', rfl, hrun, hsim⟩
    · exact ⟨.val (-1), st, by simp only [exec, hrun, bind, Except.bind]; rfl, rfl, h⟩
    · exact ⟨_, st', by simp only [exec, hrun, bind, Except.bind]; rfl, means_item v, hsim⟩
  | count =>
    obtain ⟨n, hrun, hn⟩ := tssCount_sim h
    exact ⟨.count n, st, by simp only [exec, hrun, bind, Except.bind]; rfl, hn, h⟩

/-- Any sequence of calls after `tss_init` is answered as a LIFO of at most `capacity` items
answers it; no assertion fails, and no access is outside the array. -/
theorem tss_refines_lifo {memory : Bool} {st st₀ : Tstack} {capacity : UInt32}
    (hinit : tssInit memory st capacity = some st₀) (ops : List (Lifo.Op UInt32)) :
    ∃ rs st', tssMachine.run st₀ ops = .ok (rs, st') ∧
      rs.Forall₂ TssRes.Means (Machine.answers (Lifo.step capacity.toNat) [] ops).1 ∧
      (∃ n, tssCount st' = .ok n ∧
        n.toNat = (Machine.answers (Lifo.step capacity.toNat) [] ops).2.length) ∧
      st'.sp ≤ st'.capacity ∧ st'.capacity = capacity ∧ st'.arr.length = capacity.toNat := by
  obtain ⟨rs, st', hrun, hall, hsim⟩ := Machine.run_simulates (M := tssMachine)
    (fun st l op (h : Sim capacity st l) _ => exec_sim h op) (Sim.init hinit)
    (Machine.admissible_of_pre (fun _ _ => trivial) ops)
  exact ⟨rs, st', hrun, hall, tssCount_sim hsim, hsim.sp_le, hsim.capacity, hsim.length⟩

/-- A stack for two values: a third one is refused, and so is a pop too many. -/
theorem tss_refines_lifo_two :
    ∃ rs st', tssMachine.run ⟨2, 2, [0, 0]⟩
        [.push 5, .push 0xffffffff, .push 7, .pop, .pop, .pop] = .ok (rs, st') ∧
      rs.Forall₂ TssRes.Means (Machine.answers (Lifo.step 2) []
        [.push 5, .push 0xffffffff, .push 7, .pop, .pop, .pop]).1 ∧
      (∃ n, tssCount st' = .ok n ∧ n.toNat = (Machine.answers (Lifo.step 2) []
        [.push 5, .push 0xffffffff, .push 7, .pop, .pop, .pop]).2.length) ∧
      st'.sp ≤ st'.capacity ∧ st'.capacity = 2 ∧ st'.arr.length = 2 :=
  tss_refines_lifo (show tssInit true ⟨0, 0, []⟩ 2 = some ⟨2, 2, [0, 0]⟩ from rfl) _

end Bluetea.Stack
