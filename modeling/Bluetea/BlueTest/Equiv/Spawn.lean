import Bluetea.BlueTest.Spawn
import Mathlib.Algebra.Group.Nat.Defs

/-!
# What `spawn_test` hands over

The count of the arguments is taken modulo 64, and the array has room for 64 pointers.  With `k`
the count modulo 64, the array gets the first `k` arguments as they should be handed over, if `k`
lies between 2 and 62 (`buildFwArgv_of_mod`); otherwise it is written outside.  So a command line is
handed over whole exactly up to 62 arguments, one less than the comment in the source says
(`spawnTest_forwards_iff`).
-/

namespace Bluetea.BlueTest

/-! ### Counts and offsets -/

theorem fwArgcOf_eq (argc : ℕ) : fwArgcOf argc = ((argc % 64 : ℕ) : Int) + 1 := by
  have hmask : ((UInt8.ofNat argc).toUInt32 &&& 0x3f).toNat = argc % 256 &&& 63 := by
    rw [UInt32.toNat_and, UInt8.toNat_toUInt32, UInt8.toNat_ofNat']
    rfl
  have hmod : argc % 256 &&& 63 = argc % 64 := by
    rw [Nat.and_two_pow_sub_one_eq_mod _ 6]
    omega
  rw [fwArgcOf, hmask, hmod]

theorem toSize_natCast {n : ℕ} (h : n < 2 ^ 64) : (toSize n).toNat = n := by
  have hmod : ((n : Int) % 2 ^ 64).toNat = n := by omega
  unfold toSize UInt64.ofInt
  rw [hmod]
  exact UInt64.toNat_ofNat_of_lt' h

/-- A count in bytes is a count of pointers again, unless it is negative. -/
theorem toSize_bytes {n : ℕ} (h : n < 64) : (toSize n * sizeofPtr / sizeofPtr).toNat = n := by
  have hn := toSize_natCast (n := n) (by omega)
  simp only [UInt64.toNat_div, UInt64.toNat_mul, hn, sizeofPtr, UInt64.reduceToNat]
  omega

theorem storeAt_overwrite {w o : List (Option CStr)} {i : Int} (hi : i = w.length)
    (ho : o.length = 64) (h : w.length < 64) (x : Option CStr) :
    storeAt (Buffer.overwrite w o) i x = .ok (Buffer.overwrite (w ++ [x]) o) := by
  unfold storeAt
  rw [hi, toSize_natCast (by omega)]
  exact Buffer.store_overwrite (by omega) x

theorem storeAt_full {w o : List (Option CStr)} {i : Int} (hi : i = w.length)
    (ho : o.length = 64) (h : w.length = 64) (x : Option CStr) :
    storeAt (Buffer.overwrite w o) i x = .error (.write 64) := by
  have hlen : (Buffer.overwrite w o).length = 64 :=
    (Buffer.length_overwrite (by omega)).trans ho
  unfold storeAt Buffer.store
  rw [hi, toSize_natCast (by omega), hlen, h]
  rfl

/-! ### The command line -/

/-- The arguments behind `do_test`. -/
def behindDoTest (argv : List CStr) : List (Option CStr) := (argv.drop 2).map some

/-- What should be handed over: the arguments behind `do_test`, the program itself, the action of
the framework and the name of the descriptor. -/
def forwarded (argv : List CStr) (pipeFdArg : CStr) : List (Option CStr) :=
  behindDoTest argv ++ [argv.head?, some doTestInternal, some pipeFdArg, none]

theorem length_forwarded (argv : List CStr) (pipeFdArg : CStr) :
    (forwarded argv pipeFdArg).length = argv.length - 2 + 4 := by
  simp [forwarded, behindDoTest]

theorem length_behindDoTest_take {argv : List CStr} {k : ℕ} (h : k ≤ argv.length) :
    (behindDoTest (argv.take k)).length = k - 2 := by
  rw [behindDoTest, List.length_map, List.length_drop, List.length_take, Nat.min_eq_left h]

theorem behindDoTest_take_le {argv : List CStr} {k : ℕ} (h : 2 ≤ argv.length) :
    behindDoTest (argv.take k) <+: (argv.map some ++ [none]).drop 2 := by
  rw [behindDoTest, List.drop_append_of_le_length (by rw [List.length_map]; exact h),
    ← List.map_drop, List.drop_take]
  exact (List.IsPrefix.map some (List.take_prefix _ _)).trans (List.prefix_append _ _)

section Build

variable {argv : List CStr} (pipeFdArg : CStr) {o : List (Option CStr)} (ho : o.length = 64)

include ho

theorem memmove_arguments (h : 2 ≤ argv.length % 64) :
    Buffer.memmoveFrom o ((argv.map some ++ [none]).drop 2)
        (toSize (fwArgcOf argv.length - 3) * sizeofPtr / sizeofPtr).toNat
      = .ok (Buffer.overwrite (behindDoTest (argv.take (argv.length % 64))) o) := by
  have hle := Nat.mod_le argv.length 64
  have hlen := length_behindDoTest_take hle
  have hcount : fwArgcOf argv.length - 3 = ((argv.length % 64 - 2 : ℕ) : Int) := by
    rw [fwArgcOf_eq]
    omega
  rw [hcount, toSize_bytes (by omega), ← hlen]
  exact Buffer.memmoveFrom_overwrite (behindDoTest_take_le (by omega)) (by omega)

/-- The four stores follow each other, and the first three are inside. -/
theorem buildFwArgv_eq (h : 2 ≤ argv.length % 64) :
    buildFwArgv argv pipeFdArg o = storeAt (Buffer.overwrite
      (behindDoTest (argv.take (argv.length % 64)) ++ [argv.head?] ++ [some doTestInternal]
        ++ [some pipeFdArg]) o) (fwArgcOf argv.length - 0) none := by
  have hlt := Nat.mod_lt argv.length (show 0 < 64 by decide)
  have hlen := length_behindDoTest_take (Nat.mod_le argv.length 64)
  have hcount := fwArgcOf_eq argv.length
  have hload : Buffer.load (argv.map some ++ [none]) 0 = .ok argv.head? := by
    cases argv with
    | nil => simp at h
    | cons a argv => rfl
  simp only [buildFwArgv, memmove_arguments ho h, hload, bind, Except.bind]
  -- the three stores write one behind the other, each behind what was copied before
  rw [storeAt_overwrite (by omega) ho (by omega)]
  dsimp only
  rw [storeAt_overwrite (by simp only [List.length_append, List.length_singleton]; omega) ho
    (by simp only [List.length_append, List.length_singleton]; omega)]
  dsimp only
  rw [storeAt_overwrite (by simp only [List.length_append, List.length_singleton]; omega) ho
    (by simp only [List.length_append, List.length_singleton]; omega)]

/-- With 2 to 62 arguments, counted modulo 64, the array gets the first of them. -/
theorem buildFwArgv_of_mod (h : 2 ≤ argv.length % 64) (h' : argv.length % 64 ≤ 62) :
    buildFwArgv argv pipeFdArg o
      = .ok (Buffer.overwrite (forwarded (argv.take (argv.length % 64)) pipeFdArg) o) := by
  have hlen := length_behindDoTest_take (Nat.mod_le argv.length 64)
  have hcount := fwArgcOf_eq argv.length
  have hhead : (argv.take (argv.length % 64)).head? = argv.head? := by
    rw [List.head?_take, if_neg (by omega)]
  rw [buildFwArgv_eq pipeFdArg ho h, storeAt_overwrite
    (by simp only [List.length_append, List.length_singleton]; omega) ho
    (by simp only [List.length_append, List.length_singleton]; omega), forwarded, hhead]
  simp only [List.append_assoc, List.cons_append, List.nil_append]

/-- With 63, the NULL at the end is written behind the array. -/
theorem buildFwArgv_overflow (h : argv.length % 64 = 63) :
    buildFwArgv argv pipeFdArg o = .error (.write 64) := by
  have hlen := length_behindDoTest_take (Nat.mod_le argv.length 64)
  have hcount := fwArgcOf_eq argv.length
  rw [buildFwArgv_eq pipeFdArg ho (by omega)]
  apply storeAt_full _ ho
  all_goals
    simp only [List.length_append, List.length_singleton]
    omega

end Build

/-! ### The call -/

/-- The calls of `pipe` and of `fcntl` succeed. -/
structure SpawnSystem.Succeeds (sys : SpawnSystem) (pipeFd : Fd × Fd) : Prop where
  pipe : sys.pipe = .ok pipeFd
  fcntlGetfl : ∀ fd ∈ [pipeFd.1, pipeFd.2], ∃ flags, sys.fcntlGetfl fd = .ok flags
  fcntlSetfl : ∀ fd ∈ [pipeFd.1, pipeFd.2], ∀ flags, ∃ r, sys.fcntlSetfl fd flags = .ok r

theorem SpawnSystem.Succeeds.fdSetNonblock {sys : SpawnSystem} {pipeFd : Fd × Fd}
    (h : sys.Succeeds pipeFd) {fd : Fd} (hfd : fd ∈ [pipeFd.1, pipeFd.2]) :
    ¬BlueTest.fdSetNonblock sys fd < 0 := by
  obtain ⟨flags, hget⟩ := h.fcntlGetfl fd hfd
  obtain ⟨r, hset⟩ := h.fcntlSetfl fd hfd (flags ||| oNonblock)
  simp only [BlueTest.fdSetNonblock, hget, hset]
  omega

/-- The name of a descriptor has room in `pipe_fd_arg`. -/
theorem snprintfD_fd (fd : Fd) : snprintfD 16 fd = decimal fd := by
  have hlen : (Nat.toDigits 10 fd).length ≤ 10 :=
    (Nat.length_toDigits_le_iff (by decide) (by decide)).mpr (Nat.lt_trans fd.isLt (by decide))
  apply CStr.bytes_injective
  apply List.take_of_length_le
  show ((Nat.toDigits 10 fd).map Char.toUInt8).length ≤ 15
  rw [List.length_map]
  omega

theorem spawnTest_eq {sys : SpawnSystem} {pipeFd : Fd × Fd} (h : sys.Succeeds pipeFd)
    (argv : List CStr) (fwArgv : FwArgv) :
    spawnTest sys argv fwArgv = (buildFwArgv argv (decimal pipeFd.2) fwArgv).map
      fun fwArgv => ⟨some fwArgv, sys.fork.ending⟩ := by
  unfold spawnTest
  rw [h.pipe]
  simp only [h.fdSetNonblock (List.mem_cons_self ..), if_false,
    h.fdSetNonblock (List.mem_cons_of_mem _ (List.mem_cons_self ..)), snprintfD_fd]
  rfl

/-- From 2 to 62 arguments the command line is built. -/
theorem spawnTest_of_le {sys : SpawnSystem} {pipeFd : Fd × Fd} (h : sys.Succeeds pipeFd)
    {argv : List CStr} (htwo : 2 ≤ argv.length) (hle : argv.length ≤ 62) (fwArgv : FwArgv) :
    spawnTest sys argv fwArgv = .ok
      ⟨some (Buffer.overwrite (forwarded argv (decimal pipeFd.2)) fwArgv), sys.fork.ending⟩ := by
  have hmod : argv.length % 64 = argv.length := Nat.mod_eq_of_lt (by omega)
  have hbuild := buildFwArgv_of_mod (decimal pipeFd.2) fwArgv.2
    (by omega : 2 ≤ argv.length % 64) (by omega)
  rw [hmod, List.take_length] at hbuild
  rw [spawnTest_eq h, hbuild]
  rfl

/-- A command line of more than 63 arguments may be rejected before anything is written; any other
is built without a write outside and without a negative count, and the array begins with what
should be handed over. -/
def ForwardsWhole (argv : List CStr) (fd : Fd) (r : Except Buffer.Fault Spawned) : Prop :=
  ∃ s, r = .ok s ∧ ((63 < argv.length ∧ s.fwArgv = none) ∨
    (0 ≤ fwArgcOf argv.length - 3 ∧ ∃ fwArgv, s.fwArgv = some fwArgv ∧ fwArgv.length = 64 ∧
      forwarded argv (decimal fd) <+: fwArgv))

/-- The program that is started sees the pointers up to the first NULL. -/
theorem execArgs_of_prefix {args : List CStr} {fwArgv : List (Option CStr)}
    (h : args.map some ++ [none] <+: fwArgv) : execArgs fwArgv = args := by
  obtain ⟨rest, rfl⟩ := h
  have hsome : ∀ x ∈ args.map some, x.isSome = true := by
    intro x hx
    obtain ⟨a, -, rfl⟩ := List.mem_map.mp hx
    rfl
  unfold execArgs
  rw [List.append_assoc, List.takeWhile_append_of_pos hsome, List.singleton_append,
    List.takeWhile_cons_of_neg (by decide), List.append_nil, List.filterMap_map]
  exact List.filterMap_some

/-- The command line is handed over whole exactly up to 62 arguments. -/
theorem spawnTest_forwards_iff {sys : SpawnSystem} {pipeFd : Fd × Fd} (h : sys.Succeeds pipeFd)
    {argv : List CStr} (hargc : 2 ≤ argv.length) (fwArgv : FwArgv) :
    ForwardsWhole argv pipeFd.2 (spawnTest sys argv fwArgv) ↔ argv.length ≤ 62 := by
  constructor
  · rw [spawnTest_eq h]
    rintro ⟨s, hs, hforward⟩
    cases hbuild : buildFwArgv argv (decimal pipeFd.2) fwArgv with
    | error f =>
      rw [hbuild] at hs
      cases hs
    | ok built =>
      rw [hbuild] at hs
      cases hs
      rcases hforward with ⟨-, hnone⟩ | ⟨-, fw, -, hlen, hprefix⟩
      · cases hnone
      · -- four pointers besides the arguments must have room
        have hle := hprefix.length_le
        rw [length_forwarded, hlen] at hle
        omega
  · intro hle
    refine ⟨_, spawnTest_of_le h hargc hle fwArgv, Or.inr ⟨?_, _, rfl, ?_, ?_⟩⟩
    · rw [fwArgcOf_eq]
      omega
    · rw [Buffer.length_overwrite, fwArgv.2]
      rw [length_forwarded, fwArgv.2]
      omega
    · exact List.prefix_append _ _

/-- A system in which all goes well, up to the `execve` of the child. -/
def goodSystem : SpawnSystem where
  pipe := .ok (3, 4)
  fcntlGetfl _ := .ok 0
  fcntlSetfl _ _ := .ok 0
  fork := .child none

theorem goodSystem_succeeds : goodSystem.Succeeds (3, 4) :=
  ⟨rfl, fun _ _ => ⟨0, rfl⟩, fun _ _ _ => ⟨0, rfl⟩⟩

/-- A program, `do_test` and `n` more arguments. -/
def commandLine (n : ℕ) : List CStr :=
  ⟨literal ['.', '/', 't'], CStr.ne_zero_of_all (by decide)⟩ ::
    ⟨doTest, CStr.ne_zero_of_all (by decide)⟩ ::
      List.replicate n ⟨literal ['-', 'v'], CStr.ne_zero_of_all (by decide)⟩

/-- `--leak-check=full` -/
def leakCheck : CStr :=
  ⟨literal ['-', '-', 'l', 'e', 'a', 'k', '-', 'c', 'h', 'e', 'c', 'k', '=', 'f', 'u', 'l', 'l'],
    CStr.ne_zero_of_all (by decide)⟩

/-- What valgrind runs when it gets `argv`: the options begin with a dash, the program does not. -/
def valgrindRuns (argv : List CStr) : List CStr :=
  argv.tail.dropWhile fun arg => arg.bytes.head? == some '-'.toUInt8

def noFwArgv : FwArgv := ⟨List.replicate 64 none, List.length_replicate⟩

theorem spawnTest_forwards_iff_three :
    ForwardsWhole (commandLine 1) 4 (spawnTest goodSystem (commandLine 1) noFwArgv) ↔
      (commandLine 1).length ≤ 62 :=
  spawnTest_forwards_iff goodSystem_succeeds (by decide) noFwArgv

/-- With the 63 arguments that the comment allows, memory behind the array is written; with 66,
the last 64 are dropped without a word. -/
theorem spawnTest_drops :
    (spawnTest goodSystem (commandLine 61) noFwArgv = .error (.write 64) ∧
      ¬ForwardsWhole (commandLine 61) 4 (spawnTest goodSystem (commandLine 61) noFwArgv)) ∧
    ((∃ s fw, spawnTest goodSystem (commandLine 64) noFwArgv = .ok s ∧ s.fwArgv = some fw ∧
        (execArgs fw).length = 3) ∧
      ¬ForwardsWhole (commandLine 64) 4 (spawnTest goodSystem (commandLine 64) noFwArgv)) := by
  constructor
  · -- 63 arguments in all: the NULL is written one behind the array
    have hfault : spawnTest goodSystem (commandLine 61) noFwArgv = .error (.write 64) := by
      rw [spawnTest_eq goodSystem_succeeds, buildFwArgv_overflow _ noFwArgv.2 (by decide)]
      rfl
    refine ⟨hfault, ?_⟩
    rintro ⟨s, hs, -⟩
    rw [hfault] at hs
    cases hs
  · have hbuild := spawnTest_eq goodSystem_succeeds (commandLine 64) noFwArgv
    rw [buildFwArgv_of_mod _ noFwArgv.2 (by decide) (by decide)] at hbuild
    refine ⟨⟨_, _, hbuild, rfl, by decide⟩, ?_⟩
    -- 66 arguments count as two, so none of those behind `do_test` is passed on
    rintro ⟨s, hs, ⟨-, hnone⟩ | ⟨-, fw, -, hlen, hprefix⟩⟩
    · rw [hbuild] at hs
      cases hs
      cases hnone
    · have hle := hprefix.length_le
      rw [length_forwarded, hlen] at hle
      exact absurd hle (by decide)

end Bluetea.BlueTest
