import Mathlib.Data.List.Basic

/-!
# C strings

A C string is the list of its bytes without the terminating NUL; none of the bytes is NUL.
Reading a string at its length gives the terminator, reading past it is not defined.
-/

/-- A C string. -/
structure CStr where
  bytes : List UInt8
  ne_zero : ∀ b ∈ bytes, b ≠ 0
  deriving DecidableEq

namespace CStr

def strlen (s : CStr) : ℕ := s.bytes.length

theorem bytes_injective {s t : CStr} (h : s.bytes = t.bytes) : s = t := by
  cases s
  cases t
  cases h
  rfl

/-- Checks a string literal byte by byte. -/
theorem ne_zero_of_all {l : List UInt8} (h : (l.all fun b => b != 0) = true) :
    ∀ b ∈ l, b ≠ 0 := by
  simpa using h

/-- `""` -/
def empty : CStr := ⟨[], ne_zero_of_all rfl⟩

/-- A `char *` to index `ptr` of the buffer points to the string. -/
def At (s : CStr) (buf : List UInt8) (ptr : ℕ) : Prop :=
  ∃ post, buf.drop ptr = s.bytes ++ 0 :: post

/-- The first NUL of a string is its terminator. -/
theorem findIdx?_nul {l : List UInt8} (h : ∀ b ∈ l, b ≠ 0) (post : List UInt8) :
    (l ++ 0 :: post).findIdx? (· == 0) = some l.length := by
  have hnone : l.findIdx? (· == 0) = none := by
    rw [List.findIdx?_eq_none_iff]
    intro b hb
    exact beq_false_of_ne (h b hb)
  rw [List.findIdx?_append, hnone, List.findIdx?_cons]
  simp

/-- The buffer around a string. -/
theorem At.exists_append {s : CStr} {buf : List UInt8} {ptr : ℕ} (hs : s.At buf ptr) :
    ∃ pre post, buf = pre ++ (s.bytes ++ 0 :: post) ∧ pre.length = ptr := by
  obtain ⟨post, hpost⟩ := hs
  have hlen := congrArg List.length hpost
  rw [List.length_drop, List.length_append, List.length_cons] at hlen
  refine ⟨buf.take ptr, post, ?_, List.length_take_of_le (by omega)⟩
  rw [← hpost, List.take_append_drop]

/-- There is one string at most at a pointer. -/
theorem At.bytes_eq {s : CStr} {buf : List UInt8} {ptr : ℕ} (hs : s.At buf ptr)
    {l post : List UInt8} (hbuf : buf.drop ptr = l ++ 0 :: post) (h : ∀ b ∈ l, b ≠ 0) :
    s.bytes = l := by
  obtain ⟨post', hs⟩ := hs
  have heq : s.bytes ++ 0 :: post' = l ++ 0 :: post := hs.symm.trans hbuf
  have hlen : s.bytes.length = l.length := by
    have hidx := congrArg (List.findIdx? (· == 0)) heq
    rw [findIdx?_nul s.ne_zero, findIdx?_nul h] at hidx
    exact Option.some.inj hidx
  exact (List.append_inj heq hlen).1

theorem at_append_iff {s t : CStr} (pre post : List UInt8) :
    s.At (pre ++ (t.bytes ++ 0 :: post)) pre.length ↔ s = t := by
  constructor
  · intro hs
    exact bytes_injective (hs.bytes_eq List.drop_left t.ne_zero)
  · rintro rfl
    exact ⟨post, List.drop_left⟩

/-- One string behind the other. -/
def append (s t : CStr) : CStr where
  bytes := s.bytes ++ t.bytes
  ne_zero b hb := (List.mem_append.mp hb).elim (s.ne_zero b) (t.ne_zero b)

/-- The bytes a `char *` into the string points to, up to the terminator. -/
def from? (s : CStr) (off : ℕ) : Option (List UInt8) :=
  if off ≤ s.strlen then some (s.bytes.drop off) else none

/-- The bytes `l` with the terminator behind them, at `i`. -/
def byteAt (l : List UInt8) (i : ℕ) : UInt8 := l.getD i 0

/-- `strncmp(s, t, n)` for two NUL-terminated lists of bytes: the first difference among the first
`n` bytes, where the terminator ends the comparison. -/
def strncmp : ℕ → List UInt8 → List UInt8 → Int
  | 0, _, _ => 0
  | n + 1, s, t =>
    let a := byteAt s 0
    let b := byteAt t 0
    if a ≠ b then (a.toNat : Int) - b.toNat
    else if a = 0 then 0
    else strncmp n s.tail t.tail

@[simp] theorem byteAt_nil (i : ℕ) : byteAt [] i = 0 := by simp [byteAt]

@[simp] theorem byteAt_cons_zero (a : UInt8) (l : List UInt8) : byteAt (a :: l) 0 = a := rfl

@[simp] theorem byteAt_cons_succ (a : UInt8) (l : List UInt8) (i : ℕ) :
    byteAt (a :: l) (i + 1) = byteAt l i := rfl

/-- Comparing as many bytes as the first string has asks whether it is a prefix of the second. -/
theorem strncmp_eq_zero_iff {s t : List UInt8} (hs : ∀ b ∈ s, b ≠ 0) :
    strncmp s.length s t = 0 ↔ s <+: t := by
  induction s generalizing t with
  | nil => simp [strncmp]
  | cons a s ih =>
    have ha : a ≠ 0 := hs a (List.mem_cons_self ..)
    have hs' : ∀ b ∈ s, b ≠ 0 := fun b hb => hs b (List.mem_cons_of_mem _ hb)
    rw [List.length_cons, strncmp]
    cases t with
    | nil =>
      -- the terminator of `t` differs from `a`
      have h0 : a.toNat ≠ 0 := fun h => ha (UInt8.toNat_inj.mp h)
      simp [ha]
      omega
    | cons b t =>
      by_cases hab : a = b
      · subst hab
        simp [ha, ih hs']
      · have hne : a.toNat ≠ b.toNat := fun h => hab (UInt8.toNat_inj.mp h)
        simp [hab]
        omega

theorem strncmp_cons (n : ℕ) (a b : UInt8) (s t : List UInt8) :
    strncmp (n + 1) (a :: s) (b :: t) =
      if a ≠ b then (a.toNat : Int) - b.toNat else if a = 0 then 0 else strncmp n s t := rfl

/-- Comparing more bytes than one of the strings has is comparing them whole. -/
theorem strncmp_eq_zero_iff_eq {n : ℕ} {s t : List UInt8} (hs : ∀ b ∈ s, b ≠ 0)
    (ht : ∀ b ∈ t, b ≠ 0) (h : t.length < n) : strncmp n s t = 0 ↔ s = t := by
  induction n generalizing s t with
  | zero => exact absurd h (Nat.not_lt_zero _)
  | succ n ih =>
    -- two bytes that differ decide
    have hdiff : ∀ a b : UInt8, a ≠ b → (a.toNat : Int) - b.toNat ≠ 0 := by
      intro a b hne hzero
      apply hne
      apply UInt8.toNat_inj.mp
      omega
    cases s with
    | nil =>
      cases t with
      | nil => exact iff_of_true rfl rfl
      | cons b t =>
        -- the shorter string ends with a NUL, where the other one has another byte
        have hb : (0 : UInt8) ≠ b := (ht b (List.mem_cons_self ..)).symm
        refine iff_of_false ?_ (List.cons_ne_nil b t).symm
        rw [strncmp]
        simp only [byteAt_nil, byteAt_cons_zero, if_pos hb]
        exact hdiff 0 b hb
    | cons a s =>
      have ha : a ≠ 0 := hs a (List.mem_cons_self ..)
      cases t with
      | nil =>
        refine iff_of_false ?_ (List.cons_ne_nil a s)
        rw [strncmp]
        simp only [byteAt_nil, byteAt_cons_zero, if_pos ha]
        exact hdiff a 0 ha
      | cons b t =>
        rw [strncmp_cons, List.cons.injEq]
        by_cases hab : a = b
        · rw [if_neg (fun hne => hne hab), if_neg ha,
            ih (fun c hc => hs c (List.mem_cons_of_mem _ hc))
            (fun c hc => ht c (List.mem_cons_of_mem _ hc)) (Nat.lt_of_succ_lt_succ h)]
          exact (and_iff_right hab).symm
        · rw [if_pos hab]
          exact iff_of_false (hdiff a b hab) fun heq => hab heq.1

end CStr
