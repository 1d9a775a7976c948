import Bluetea.Strtrim.Basic
import Bluetea.Trimming.Basic

/-!
# The scans of the trimmers

The length splits the buffer into the text and what follows it, `text ++ c :: post`.  When the text
has a core, both scans end at it (`scan_of_core_ne_nil`).  Else the scan from the front ends behind
the text, and the scan from the back leaves the buffer at its beginning (`skipBack_before`).
-/

namespace Bluetea.Strtrim

open Buffer Trimming

variable {pre text post : List UInt8} {c : UInt8} {len : UInt64}

theorem load_append (pre post : List UInt8) (c : UInt8) :
    load (pre ++ c :: post) pre.length = .ok c := by
  rw [load, Buffer.load_append]
  rfl

theorem store_of_lt {buf : List UInt8} {i : ℕ} (h : i < buf.length) (x : UInt8) :
    store buf i x = .ok (buf.set i x) := by
  rw [store, Buffer.store_of_lt h]
  rfl

/-! ### The scan from the front -/

/-- The scan goes over the whitespace `w`, which is all there is up to `end[1]` if the byte behind
it is whitespace too. -/
theorem skipFront_append {w : List UInt8} (hw : ∀ x ∈ w, isWs x) {n : ℕ} (hn : w.length ≤ n)
    (hc : isWs c → w.length = n) (pre post : List UInt8) :
    skipFront (pre ++ (w ++ c :: post)) n pre.length = .ok (isWs c, pre.length + w.length) := by
  induction w generalizing pre n with
  | nil =>
    rw [List.nil_append]
    cases n with
    -- with nothing left to skip the loop still looks at `c`
    | zero =>
      simp only [skipFront, load_append, bind, Except.bind]
      rfl
    | succ n =>
      have hnot : ¬isWs c := fun hws => Nat.succ_ne_zero n (hc hws).symm
      simp only [skipFront, load_append, bind, Except.bind, if_neg hnot]
      rw [Bool.eq_false_iff.mpr hnot]
      rfl
  | cons x w ih =>
    obtain ⟨n, rfl⟩ : ∃ m, n = m + 1 := Nat.exists_eq_succ_of_ne_zero (by
      rw [List.length_cons] at hn
      omega)
    have hx : isWs x := hw x (List.mem_cons_self ..)
    rw [List.length_cons] at hn
    have hih := ih (fun y hy => hw y (List.mem_cons_of_mem _ hy)) (Nat.le_of_succ_le_succ hn)
      (fun hws => Nat.succ.inj (hc hws)) (pre ++ [x])
    rw [List.length_append, List.append_assoc, List.length_singleton] at hih
    rw [List.cons_append, skipFront, load_append, List.length_cons]
    simp only [bind, Except.bind, if_pos hx]
    rw [Nat.add_comm w.length 1, ← Nat.add_assoc]
    exact hih

/-! ### The scan from the back -/

theorem skipBack_step {buf : List UInt8} {n : ℕ} {x : UInt8} (hx : buf[n]? = some x)
    (hws : isWs x) : skipBack buf (n + 1) = skipBack buf n := by
  simp only [skipBack, load, Buffer.load, hx, Except.mapError, bind, Except.bind, if_pos hws]

theorem getElem?_append_cons (l post : List UInt8) (x : UInt8) :
    (l ++ x :: post)[l.length]? = some x := by
  rw [List.getElem?_append_right (Nat.le_refl _), Nat.sub_self]
  rfl

/-- The scan goes over the whitespace `w`. -/
theorem skipBack_append {w : List UInt8} (hw : ∀ x ∈ w, isWs x) (l post : List UInt8) :
    skipBack (l ++ (w ++ post)) (l.length + w.length) = skipBack (l ++ (w ++ post)) l.length := by
  induction w generalizing l with
  | nil => rfl
  | cons x w ih =>
    have hx : isWs x := hw x (List.mem_cons_self ..)
    have hih := ih (fun y hy => hw y (List.mem_cons_of_mem _ hy)) (l ++ [x])
    rw [List.length_append, List.append_assoc, List.length_singleton] at hih
    rw [List.length_cons, Nat.add_comm w.length 1, ← Nat.add_assoc]
    calc skipBack (l ++ (x :: w ++ post)) (l.length + 1 + w.length)
        = skipBack (l ++ (x :: w ++ post)) (l.length + 1) := hih
      _ = skipBack (l ++ (x :: w ++ post)) l.length :=
          skipBack_step (getElem?_append_cons l _ x) hx

theorem skipBack_eq {w : List UInt8} (hw : ∀ x ∈ w, isWs x) {x : UInt8} (hx : ¬isWs x)
    (l post : List UInt8) :
    skipBack (l ++ x :: (w ++ post)) (l.length + 1 + w.length) = .ok (l.length + 1) := by
  have happ := skipBack_append hw (l ++ [x]) post
  rw [List.length_append, List.append_assoc, List.length_singleton] at happ
  calc skipBack (l ++ x :: (w ++ post)) (l.length + 1 + w.length)
      = skipBack (l ++ x :: (w ++ post)) (l.length + 1) := happ
    _ = .ok (l.length + 1) := by
        simp only [skipBack, load_append, bind, Except.bind, if_neg hx]
        rfl

/-- With nothing but whitespace, the scan goes on in front of the buffer. -/
theorem skipBack_before {w : List UInt8} (hw : ∀ x ∈ w, isWs x) (post : List UInt8) :
    skipBack (w ++ post) w.length = .error .before := by
  have happ := skipBack_append hw [] post
  rw [List.nil_append, List.length_nil, Nat.zero_add] at happ
  rw [happ]
  rfl

/-! ### Both scans -/

/-- The buffer with the core of the text in evidence. -/
theorem buffer_eq (pre text post : List UInt8) (c : UInt8) :
    pre ++ (text ++ c :: post)
      = (pre ++ lead isWs text) ++ (core isWs text ++ (trail isWs text ++ c :: post)) :=
  append_append_eq ..

/-- The index of the core. -/
def front (pre text : List UInt8) : ℕ := pre.length + (lead isWs text).length

theorem front_eq (pre text : List UInt8) : front pre text = (pre ++ lead isWs text).length :=
  List.length_append.symm

/-- There is a core: both scans end at it. -/
theorem scan_of_core_ne_nil (hcore : core isWs text ≠ []) (hlen : text.length = len.toNat)
    (pre post : List UInt8) (c : UInt8) :
    skipFront (pre ++ (text ++ c :: post)) len.toNat pre.length = .ok (false, front pre text) ∧
      (∃ x, load (pre ++ (text ++ c :: post)) (front pre text) = .ok x) ∧
      front pre text ≠ pre.length + len.toNat ∧
      skipBack (pre ++ (text ++ c :: post)) (pre.length + len.toNat)
        = .ok (front pre text + (core isWs text).length) := by
  have hlength := length_eq isWs text
  have hpos := List.length_pos_of_ne_nil hcore
  obtain ⟨x, t, hx, hxws⟩ := exists_cons_of_core_ne_nil hcore
  obtain ⟨t', y, hy, hyws⟩ := exists_concat_of_core_ne_nil hcore
  have hbuf := buffer_eq pre text post c
  -- the scan from the front stops at the first letter of the core, that from the back behind its last
  refine ⟨?_, ⟨x, ?_⟩, ?_, ?_⟩
  · have hfront := skipFront_append (c := x) (w := lead isWs text) (fun z hz => of_mem_lead hz)
      (n := len.toNat) (by omega) (fun hws => absurd hws hxws) pre
      (t ++ (trail isWs text ++ c :: post))
    rw [hbuf, hx, List.append_assoc]
    rw [Bool.eq_false_iff.mpr hxws] at hfront
    exact hfront
  · rw [hbuf, hx, front_eq]
    exact load_append ..
  · rw [front]
    omega
  · have hback := skipBack_eq (w := trail isWs text) (fun z hz => of_mem_trail hz) hyws
      ((pre ++ lead isWs text) ++ t') (c :: post)
    have hylen : (core isWs text).length = t'.length + 1 := by
      rw [hy, List.length_append, List.length_singleton]
    rw [List.append_assoc _ t', List.length_append, ← front_eq] at hback
    rw [hbuf, hylen, hy, List.append_assoc t']
    have hend : pre.length + len.toNat
        = front pre text + t'.length + 1 + (trail isWs text).length := by
      rw [front]
      omega
    rw [hend]
    exact hback

theorem lead_of_core_eq_nil (hcore : core isWs text = []) : lead isWs text = text :=
  List.takeWhile_eq_self_iff.mpr (core_eq_nil_iff.mp hcore)

/-- There is no core: the scan from the front ends behind the text. -/
theorem scan_of_core_eq_nil (hcore : core isWs text = []) (hlen : text.length = len.toNat)
    (pre post : List UInt8) (c : UInt8) :
    skipFront (pre ++ (text ++ c :: post)) len.toNat pre.length
        = .ok (isWs c, pre.length + len.toNat) ∧
      load (pre ++ (text ++ c :: post)) (pre.length + len.toNat) = .ok c := by
  have hws := core_eq_nil_iff.mp hcore
  constructor
  · rw [← hlen]
    exact skipFront_append hws (Nat.le_refl _) (fun _ => rfl) pre post
  · have hload := load_append (pre ++ text) post c
    rwa [List.length_append, List.append_assoc, hlen] at hload

end Bluetea.Strtrim
