import Bluetea.BlueTest.Equiv.Spawn
import Bluetea.OldString.Equiv.Copy
import Bluetea.TeaTest.Spawn
import Mathlib.Algebra.Group.Nat.Defs
import Mathlib.Data.List.TakeWhile

/-!
# What `spawn_valgrind` hands over

The count of the arguments is taken modulo 256, and the array is as long as this count says.  So the
first `k` arguments are handed over, with `k` the count modulo 256, unless `k` is 0
(`buildVlaArgv_eq`), and the command line is handed over whole exactly up to 255 arguments
(`spawnValgrind_forwards_iff`).  The test that valgrind then runs takes the other action of `main`, with
the descriptor of the pipe (`valgrind_runs_test`).
-/

namespace Bluetea.TeaTest

open BlueTest (Fd storeAt toSize sizeofPtr toSize_natCast decimal execArgs execArgs_of_prefix
  snprintfD_fd literal leakCheck valgrindRuns)
open Buffer (overwrite)

/-! ### Counts and offsets -/

theorem vlaArgcOf_eq (argc : ℕ) : vlaArgcOf argc = ((argc % 256 : ℕ) : Int) + 1 := by
  have hmask : ((UInt8.ofNat argc).toUInt32 &&& 0xff).toNat = argc % 256 &&& 255 := by
    rw [UInt32.toNat_and, UInt8.toNat_toUInt32, UInt8.toNat_ofNat']
    rfl
  have hmod : argc % 256 &&& 255 = argc % 256 := by
    rw [Nat.and_two_pow_sub_one_eq_mod _ 8]
    omega
  rw [vlaArgcOf, hmask, hmod]

theorem toSize_bytes_of_lt {n : ℕ} (h : n < 2 ^ 60) :
    (toSize n * sizeofPtr / sizeofPtr).toNat = n := by
  have hn := toSize_natCast (n := n) (by omega)
  simp only [UInt64.toNat_div, UInt64.toNat_mul, hn, sizeofPtr, UInt64.reduceToNat]
  omega

theorem length_alloca (stack : ℕ → Option CStr) (n : ℕ) : (alloca stack n).length = n := by
  rw [alloca, List.length_map, List.length_range]

theorem storeAt_next {w o : List (Option CStr)} {i : Int} (hi : i = w.length)
    (h : w.length < o.length) (hsmall : o.length < 2 ^ 64) (x : Option CStr) :
    storeAt (overwrite w o) i x = .ok (overwrite (w ++ [x]) o) := by
  unfold storeAt
  rw [hi, toSize_natCast (by omega)]
  exact Buffer.store_overwrite h x

/-! ### The command line -/

/-- What should be handed over: the arguments, the program itself and the name of the descriptor. -/
def forwarded (argv : List CStr) (pipeFdArg : CStr) : List (Option CStr) :=
  argv.tail.map some ++ [argv.head?, some pipeFdArg, none]

section Build

variable {argv : List CStr} (pipeFdArg : CStr) (stack : ℕ → Option CStr)

/-- The array gets the first `k` arguments, and is full. -/
theorem buildVlaArgv_eq (h : 1 ≤ argv.length % 256) :
    buildVlaArgv argv pipeFdArg stack
      = .ok (forwarded (argv.take (argv.length % 256)) pipeFdArg) := by
  obtain ⟨k, hk⟩ := Nat.exists_eq_add_of_le' h
  have hle := Nat.mod_le argv.length 256
  have hlt := Nat.mod_lt argv.length (show 0 < 256 by decide)
  have hcount := vlaArgcOf_eq argv.length
  rw [hk] at hcount hle hlt ⊢
  cases argv with
  | nil => cases hk
  | cons prog args =>
    rw [List.length_cons] at hle
    -- the sizes in bytes do not wrap: there are at most 255 arguments
    have ho : (toSize (vlaArgcOf (prog :: args).length + 1) * sizeofPtr / sizeofPtr).toNat = k + 3 := by
      rw [hcount, show ((k + 1 : ℕ) : Int) + 1 + 1 = ((k + 3 : ℕ) : Int) by omega,
        toSize_bytes_of_lt (by omega)]
    have hmove : (toSize (vlaArgcOf (prog :: args).length - 2) * sizeofPtr / sizeofPtr).toNat = k := by
      rw [hcount, show ((k + 1 : ℕ) : Int) + 1 - 2 = (k : ℕ) by omega, toSize_bytes_of_lt (by omega)]
    have hlen : (alloca stack (k + 3)).length = k + 3 := length_alloca ..
    have hw : ((args.take k).map some).length = k := by
      rw [List.length_map, List.length_take_of_le (by omega)]
    have hprefix : (args.take k).map some <+: ((prog :: args).map some ++ [none]).drop 1 := by
      show (args.take k).map some <+: args.map some ++ [none]
      exact (List.IsPrefix.map some (List.take_prefix _ _)).trans (List.prefix_append _ _)
    have hcopy := Buffer.memmoveFrom_overwrite hprefix (o := alloca stack (k + 3)) (by omega)
    have hload : Buffer.load ((prog :: args).map some ++ [none]) 0 = .ok (some prog) := rfl
    rw [hw] at hcopy
    simp only [buildVlaArgv, ho, hmove, hcopy, hload, bind, Except.bind]
    -- the program, the descriptor and NULL go behind what `memmove` has copied
    rw [storeAt_next (by omega) (by omega) (by omega)]
    dsimp only
    rw [storeAt_next (by simp only [List.length_append, List.length_singleton]; omega)
      (by simp only [List.length_append, List.length_singleton]; omega) (by omega)]
    dsimp only
    rw [storeAt_next (by simp only [List.length_append, List.length_singleton]; omega)
      (by simp only [List.length_append, List.length_singleton]; omega) (by omega), overwrite,
      List.drop_eq_nil_of_le (by simp only [List.length_append, List.length_singleton]; omega),
      List.append_nil, forwarded, List.take_succ_cons]
    simp only [List.append_assoc, List.cons_append, List.nil_append, List.tail_cons, List.head?_cons]

/-- With no arguments, counted modulo 256, the count of the pointers to move is negative. -/
theorem buildVlaArgv_error (h : argv.length % 256 = 0) :
    ∃ f, buildVlaArgv argv pipeFdArg stack = .error f := by
  have hcount : vlaArgcOf argv.length = 1 := by
    rw [vlaArgcOf_eq, h]
    rfl
  have ho : (toSize (1 + 1) * sizeofPtr / sizeofPtr).toNat = 2 := by decide
  have hhuge : (alloca stack 2).length < (toSize (1 - 2) * sizeofPtr / sizeofPtr).toNat := by
    rw [length_alloca]
    decide
  obtain ⟨f, hf⟩ : ∃ f, Buffer.memmoveFrom (alloca stack 2) ((argv.map some ++ [none]).drop 1)
      (toSize (1 - 2) * sizeofPtr / sizeofPtr).toNat = .error f := Buffer.memmoveFrom_error hhuge
  refine ⟨f, ?_⟩
  simp only [buildVlaArgv, hcount, ho, hf, bind, Except.bind]

end Build

/-! ### The call -/

section Call

variable {pipe : Except Int (Fd × Fd)} {pipeFd : Fd × Fd} (hpipe : pipe = .ok pipeFd) (fork : Fork)
  (argv : List CStr) (stack : ℕ → Option CStr)

include hpipe

theorem spawnValgrind_eq : spawnValgrind pipe fork argv stack
    = (buildVlaArgv argv (decimal pipeFd.2) stack).map fun vlaArgv => ⟨some vlaArgv, fork.ending⟩ := by
  rw [hpipe, spawnValgrind, snprintfD_fd]
  rfl

/-- What the process gets that is started. -/
theorem spawnValgrind_execArgs {prog : CStr} {args : List CStr} (hargc : args.length ≤ 254) :
    ∃ s vla, spawnValgrind pipe fork (prog :: args) stack = .ok s ∧ s.vlaArgv = some vla ∧
      execArgs vla = args ++ [prog, decimal pipeFd.2] := by
  -- up to 255 arguments, so the cast to `uint8_t` loses nothing
  have hlen : (prog :: args).length % 256 = (prog :: args).length := by
    rw [List.length_cons]
    omega
  have hpos : 1 ≤ (prog :: args).length % 256 := by
    rw [hlen]
    exact Nat.succ_le_succ (Nat.zero_le _)
  have hbuild := buildVlaArgv_eq (decimal pipeFd.2) stack hpos
  rw [hlen, List.take_length] at hbuild
  refine ⟨⟨some (forwarded (prog :: args) (decimal pipeFd.2)), fork.ending⟩, _, ?_, rfl, ?_⟩
  · rw [spawnValgrind_eq hpipe, hbuild]
    rfl
  · apply execArgs_of_prefix
    rw [List.map_append, List.append_assoc]
    exact List.prefix_refl _

/-- **The command line of valgrind** is handed over whole exactly up to 255 arguments.  Memory is written
outside the array exactly when their number is a multiple of 256; otherwise what is over is dropped
without a word. -/
theorem spawnValgrind_forwards_iff (hargc : argv ≠ []) :
    ((∃ s vla, spawnValgrind pipe fork argv stack = .ok s ∧ s.vlaArgv = some vla ∧
        vla = forwarded argv (decimal pipeFd.2)) ↔ argv.length ≤ 255) ∧
    ((∃ f, spawnValgrind pipe fork argv stack = .error f) ↔ 256 ∣ argv.length) := by
  have hpos := List.length_pos_of_ne_nil hargc
  rw [spawnValgrind_eq hpipe]
  by_cases hzero : argv.length % 256 = 0
  · obtain ⟨f, hf⟩ := buildVlaArgv_error (decimal pipeFd.2) stack hzero
    rw [hf]
    constructor
    · refine iff_of_false ?_ (by omega)
      rintro ⟨s, vla, hs, -⟩
      cases hs
    · exact iff_of_true ⟨f, rfl⟩ (Nat.dvd_of_mod_eq_zero hzero)
  · rw [buildVlaArgv_eq _ _ (by omega)]
    constructor
    · constructor
      · rintro ⟨s, vla, hs, hvla, hforward⟩
        cases hs
        obtain rfl := Option.some.inj hvla
        -- as many pointers as there are arguments
        have hlen := congrArg List.length hforward
        simp only [forwarded, List.length_append, List.length_map, List.length_tail,
          List.length_take, List.length_cons, List.length_nil] at hlen
        omega
      · intro hle
        refine ⟨_, _, rfl, rfl, ?_⟩
        rw [Nat.mod_eq_of_lt (by omega), List.take_length]
    · refine iff_of_false ?_ fun hdvd => hzero (Nat.mod_eq_zero_of_dvd hdvd)
      rintro ⟨f, hf⟩
      cases hf

end Call

/-- One argument more than there are counts for. -/
theorem spawnValgrind_forwards_iff_full :
    ((∃ s vla, spawnValgrind (.ok (3, 4)) (.child none) (List.replicate 256 .empty) (fun _ => none)
        = .ok s ∧ s.vlaArgv = some vla ∧
        vla = forwarded (List.replicate 256 .empty) (decimal 4)) ↔
      (List.replicate 256 CStr.empty).length ≤ 255) ∧
    ((∃ f, spawnValgrind (.ok (3, 4)) (.child none) (List.replicate 256 .empty) (fun _ => none)
        = .error f) ↔ 256 ∣ (List.replicate 256 CStr.empty).length) :=
  spawnValgrind_forwards_iff rfl (.child none) (List.replicate 256 .empty) (fun _ => none)
    (List.cons_ne_nil _ _)

/-! ### The actions -/

/-- What is in `fpath`. -/
theorem fpathOf_eq (arg : CStr) : fpathOf arg = .ok (arg.bytes.take 254) := by
  have hs : arg.At (arg.bytes ++ [0]) 0 := ⟨[], rfl⟩
  have hdest : (List.replicate sizeofFpath.toNat (0 : UInt8)).length = 255 := List.length_replicate
  -- `fpath` has 255 bytes, so 254 of the name and the terminator fit
  obtain ⟨-, -, hcopy, -⟩ := OldString.saneStrncpy_truncStr hs
    (by rw [hdest]; decide : (List.replicate sizeofFpath.toNat (0 : UInt8)).length < 2 ^ 64) 254
  obtain ⟨r, hr, ⟨post, hpost⟩, -⟩ := hcopy (by rw [hdest]; decide)
  have hbytes : r.takeWhile (· != 0) = arg.bytes.take 254 := by
    rw [show r = arg.bytes.take 254 ++ 0 :: post from hpost, List.takeWhile_append_of_pos,
      List.takeWhile_cons_of_neg (by decide), List.append_nil]
    intro b hb
    exact bne_iff_ne.mpr (arg.ne_zero b (List.mem_of_mem_take hb))
  have hrun : OldString.saneStrncpy (List.replicate sizeofFpath.toNat 0) (arg.bytes ++ [0])
      sizeofFpath = .ok r := hr
  rw [fpathOf, hrun]
  show Except.ok (r.takeWhile (· != 0)) = _
  rw [hbytes]

/-- `main` looks at the first 254 bytes of its argument. -/
theorem action_eq (prog arg : CStr) (args : List CStr) :
    action (prog :: arg :: args) = .ok (if basename (arg.bytes.take 254) = valgrind then .valgrind
      else if args = [] then .test (CStr.atoi arg.bytes) else .invalid) := by
  rw [action, fpathOf_eq]
  show (if basename (arg.bytes.take 254) = valgrind then _ else _) = _
  split_ifs <;> rfl

/-- A name without slashes. -/
theorem basename_of_not_mem {path : List UInt8} (hne : path ≠ []) (h : slash ∉ path) :
    basename path = path := by
  -- no slash at the end to take off, and none in front of the name
  have hhead : path.reverse.dropWhile (· == slash) = path.reverse := by
    cases hrev : path.reverse with
    | nil => rfl
    | cons b l =>
      have hb : b ≠ slash := by
        rintro rfl
        apply h
        rw [← List.mem_reverse, hrev]
        exact List.mem_cons_self ..
      exact List.dropWhile_cons_of_neg (by rwa [beq_iff_eq])
  have htake : path.reverse.takeWhile (· != slash) = path.reverse := by
    rw [List.takeWhile_eq_self_iff]
    intro b hb
    rw [bne_iff_ne]
    rintro rfl
    exact h (List.mem_reverse.mp hb)
  rw [basename, if_neg hne]
  rw [hhead, List.reverse_reverse, if_neg hne, htake, List.reverse_reverse]

/-- The name of a descriptor is not a path of valgrind, so the test is run with it. -/
theorem action_decimal (prog : CStr) (fd : Fd) :
    action [prog, decimal fd] = .ok (.test fd) := by
  have hdigits : ∀ b ∈ (decimal fd).bytes, Encoding.Decimal.isDigit b = true :=
    fun b hb => Encoding.Decimal.isDigit_of_mem_digits hb
  have hslash : slash ∉ (decimal fd).bytes.take 254 := by
    intro hmem
    exact absurd (hdigits slash (List.mem_of_mem_take hmem)) (by decide)
  have hne : (decimal fd).bytes.take 254 ≠ [] := by
    intro hnil
    rcases List.take_eq_nil_iff.mp hnil with hzero | hnil
    · cases hzero
    · exact Encoding.Decimal.digits_ne_nil fd hnil
  have hvalgrind : basename ((decimal fd).bytes.take 254) ≠ valgrind := by
    rw [basename_of_not_mem hne hslash]
    intro heq
    have hv : 'v'.toUInt8 ∈ (decimal fd).bytes := by
      apply List.mem_of_mem_take
      rw [heq]
      exact List.mem_cons_self ..
    exact absurd (hdigits _ hv) (by decide)
  rw [action_eq, if_neg hvalgrind, if_pos rfl]
  exact congrArg _ (congrArg _ (CStr.atoi_digits fd.isLt))

/-- **A test under valgrind**.  `runs` says which program valgrind runs in the end, with which arguments.
Up to 255 arguments, that is the test itself, which takes the other action and reports to the pipe that
the first process has made. -/
theorem valgrind_runs_test {pipe : Except Int (Fd × Fd)} {pipeFd : Fd × Fd}
    (hpipe : pipe = .ok pipeFd) (fork : Fork) (stack : ℕ → Option CStr) {prog tool : CStr}
    {args : List CStr} (hargc : args.length ≤ 253) (runs : List CStr → List CStr)
    (hruns : ∀ rest, runs (tool :: (args ++ prog :: rest)) = prog :: rest) :
    ∃ s vla, spawnValgrind pipe fork (prog :: tool :: args) stack = .ok s ∧ s.vlaArgv = some vla ∧
      (execArgs vla).head? = some tool ∧ action (runs (execArgs vla)) = .ok (.test pipeFd.2) := by
  obtain ⟨s, vla, hs, hvla, hexec⟩ : ∃ s vla,
      spawnValgrind pipe fork (prog :: tool :: args) stack = .ok s ∧ s.vlaArgv = some vla ∧
      execArgs vla = tool :: args ++ [prog, decimal pipeFd.2] :=
    spawnValgrind_execArgs hpipe fork stack (Nat.succ_le_succ hargc)
  refine ⟨s, vla, hs, hvla, ?_, ?_⟩
  · rw [hexec]
    rfl
  · -- what valgrind runs is named behind its own arguments, which is the test again
    rw [hexec, List.cons_append, hruns]
    exact action_decimal prog pipeFd.2

/-- `/bin/valgrind` -/
def valgrindPath : CStr :=
  ⟨slash :: 'b'.toUInt8 :: 'i'.toUInt8 :: 'n'.toUInt8 :: slash :: valgrind, CStr.ne_zero_of_all rfl⟩

/-- `./tea` -/
def testPath : CStr := ⟨literal ['.', '/', 't', 'e', 'a'], CStr.ne_zero_of_all rfl⟩

theorem valgrind_runs_test_leakCheck :
    ∃ s vla, spawnValgrind (.ok (3, 4)) (.child none) [testPath, valgrindPath, leakCheck]
        (fun _ => none) = .ok s ∧ s.vlaArgv = some vla ∧
      (execArgs vla).head? = some valgrindPath ∧
      action (valgrindRuns (execArgs vla)) = .ok (.test 4) :=
  valgrind_runs_test rfl (.child none) (fun _ => none) (by decide) valgrindRuns fun _ => rfl

end Bluetea.TeaTest
