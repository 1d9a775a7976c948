import Bluetea.OldString.Equiv.Shell
import Bluetea.ShellWords.Basic

/-!
# A command line of quoted arguments

What calls of `escapeshellarg` write, with blanks between, is a command line from which the shell gets
exactly the arguments, however many there are and whatever is in them.
-/

namespace Bluetea.OldString

open Buffer ShellWords

/-- `out` is what some call writes for the argument `s`. -/
def Escaped (s out : CStr) : Prop :=
  ∃ m alloc str len r, Argument str len s.bytes ∧ escapeshellarg m alloc str len = .ok r ∧
    out.At r.2 0

/-- Any call that succeeds writes the quoted argument. -/
theorem Escaped.bytes_eq {s out : CStr} (h : Escaped s out) :
    out.bytes = quoteWord posix s.bytes := by
  obtain ⟨m, alloc, str, len, r, harg, hrun, hout⟩ := h
  rw [escapeshellarg_eq harg] at hrun
  have hroom := (map_put_ok_iff _).mp ⟨r, hrun⟩
  rw [put_of_le hroom] at hrun
  obtain rfl := Except.ok.inj hrun
  apply hout.bytes_eq _ (quoteStr s).ne_zero
  show List.drop 0 (overwrite ([] ++ (quoteWord posix s.bytes ++ [0])) _) = _
  rw [List.drop_zero, List.nil_append, overwrite, List.append_assoc]
  rfl

/-- **A command line of escaped arguments** is read as these. -/
theorem escapeshellarg_commandLine {args outs : List CStr} (h : List.Forall₂ Escaped args outs) :
    ∃ ws : List (Word UInt8),
      words posix ([' '.toUInt8].intercalate (outs.map CStr.bytes)) = some ws ∧
      ws.map (List.map Prod.snd) = args.map CStr.bytes ∧
      ∀ w ∈ ws, ∀ x ∈ w, x.1 = .single ∨ x.1 = .escaped ∧ x.2 = '\''.toUInt8 := by
  have houts : outs.map CStr.bytes = (args.map CStr.bytes).map (quoteWord posix) := by
    induction h with
    | nil => rfl
    | cons hs _ ih => rw [List.map_cons, ih, hs.bytes_eq, List.map_cons, List.map_cons]
  refine ⟨_, by rw [houts]; exact words_join (by decide) _, ?_, ?_⟩
  · rw [List.map_map]
    exact (List.map_congr_left fun s _ => map_snd_preserved s).trans (List.map_id _)
  · intro w hw x hx
    obtain ⟨s, -, rfl⟩ := List.mem_map.mp hw
    obtain ⟨c, -, rfl⟩ := List.mem_map.mp hx
    exact preserved_cases c

/-- `a b` and `'`. -/
theorem escapeshellarg_commandLine_two :
    ∃ ws : List (Word UInt8),
      words posix ([' '.toUInt8].intercalate
        ([⟨[0x27, 0x61, 0x20, 0x62, 0x27], CStr.ne_zero_of_all rfl⟩,
          ⟨[0x27, 0x27, 0x5c, 0x27, 0x27, 0x27], CStr.ne_zero_of_all rfl⟩].map CStr.bytes)) = some ws ∧
      ws.map (List.map Prod.snd)
        = [⟨[0x61, 0x20, 0x62], CStr.ne_zero_of_all rfl⟩,
          ⟨[0x27], CStr.ne_zero_of_all rfl⟩].map CStr.bytes ∧
      ∀ w ∈ ws, ∀ x ∈ w, x.1 = .single ∨ x.1 = .escaped ∧ x.2 = '\''.toUInt8 :=
  escapeshellarg_commandLine <|
    .cons ⟨.filled 0, none, [0x61, 0x20, 0x62], 3, _, .counted [] (by decide) rfl rfl, rfl,
      [0, 0, 0, 0, 0, 0, 0], rfl⟩ <|
    .cons ⟨.filled 0, some [1, 1, 1, 1, 1, 1, 1], [0x27, 0], 0, _,
      .terminated [] rfl rfl (CStr.ne_zero_of_all rfl) (by decide), rfl, [], rfl⟩ .nil

end Bluetea.OldString
