import Mathlib.Data.List.Basic
import Mathlib.Tactic.TypeStar

/-!
# Words of the shell

The POSIX shell splits what it reads into words and removes the quotes.  Single quotes preserve
everything up to the next single quote, a backslash outside quotes preserves the next letter, and
adjacent pieces are one word.  A word is read here with the quoting of each of its letters.

The reader has no expansions and no operators: it stops at an unquoted letter that the shell may
take for more than itself.  What it reads is then read in the same way by any shell.

A text in single quotes, with `'\''` for each single quote in it, is read as one word, which is the
text (`words_quoteWord`).  Quoted texts next to each other are one word (`read_quoteWord`).  With a
blank between them they are a word each, so a list of texts is read back as it was (`words_join`).
-/

namespace ShellWords

variable {α : Type*}

/-- How a letter is preserved. -/
inductive Quoting
  | bare
  | escaped
  | single
  deriving DecidableEq, Repr

/-- The letters that are not letters only. -/
structure Lexicon (α : Type*) where
  quote : α
  escape : α
  newline : α
  blank : α → Bool
  /-- The letters that the shell may take for more than themselves. -/
  special : α → Bool
  escape_ne_quote : escape ≠ quote
  quote_ne_newline : quote ≠ newline
  not_blank_quote : ¬blank quote
  not_blank_escape : ¬blank escape

abbrev Word (α : Type*) := List (Quoting × α)

variable [DecidableEq α] (ℓ : Lexicon α)

/-- Reads on, in the given state of quoting, behind the beginning `w` of a word (`none` between
words). -/
def read : Quoting → Option (Word α) → List α → Option (List (Word α))
  | .bare, w, [] => some w.toList
  | _, _, [] => none
  | .bare, w, c :: cs =>
    if ℓ.blank c then (read .bare none cs).map (w.toList ++ ·)
    else if c = ℓ.quote then read .single (some (w.getD [])) cs
    else if c = ℓ.escape then read .escaped w cs
    else if ℓ.special c then none
    else read .bare (some (w.getD [] ++ [(.bare, c)])) cs
  | .escaped, w, c :: cs =>
    -- an escaped newline continues the line
    if c = ℓ.newline then read .bare w cs
    else read .bare (some (w.getD [] ++ [(.escaped, c)])) cs
  | .single, w, c :: cs =>
    if c = ℓ.quote then read .bare w cs
    else read .single (some (w.getD [] ++ [(.single, c)])) cs

/-- The words of a text; `none` if it has an unquoted special letter, or ends inside of a quote. -/
def words (text : List α) : Option (List (Word α)) := read ℓ .bare none text

/-- A letter between single quotes. -/
def quoteLetter (c : α) : List α :=
  if c = ℓ.quote then [ℓ.quote, ℓ.escape, ℓ.quote, c] else [c]

/-- A text in single quotes. -/
def quoteWord (s : List α) : List α := ℓ.quote :: (s.flatMap (quoteLetter ℓ) ++ [ℓ.quote])

/-- The letter as `quoteLetter` preserves it. -/
def preserved (c : α) : Quoting × α := (if c = ℓ.quote then .escaped else .single, c)

variable {ℓ}

theorem read_bare_quote (w : Option (Word α)) (rest : List α) :
    read ℓ .bare w (ℓ.quote :: rest) = read ℓ .single (some (w.getD [])) rest := by
  rw [read, if_neg ℓ.not_blank_quote, if_pos rfl]

theorem read_bare_escape (w : Option (Word α)) (rest : List α) :
    read ℓ .bare w (ℓ.escape :: rest) = read ℓ .escaped w rest := by
  rw [read, if_neg ℓ.not_blank_escape, if_neg ℓ.escape_ne_quote, if_pos rfl]

theorem read_escaped_quote (w : Option (Word α)) (rest : List α) :
    read ℓ .escaped w (ℓ.quote :: rest)
      = read ℓ .bare (some (w.getD [] ++ [(.escaped, ℓ.quote)])) rest := by
  rw [read, if_neg ℓ.quote_ne_newline]

theorem read_single_quote (w : Option (Word α)) (rest : List α) :
    read ℓ .single w (ℓ.quote :: rest) = read ℓ .bare w rest := by
  rw [read, if_pos rfl]

theorem read_quoteLetter (w : Word α) (c : α) (rest : List α) :
    read ℓ .single (some w) (quoteLetter ℓ c ++ rest)
      = read ℓ .single (some (w ++ [preserved ℓ c])) rest := by
  unfold quoteLetter preserved
  by_cases hc : c = ℓ.quote
  · rw [if_pos hc, if_pos hc, hc]
    -- the quotes are left, the quote is escaped, and the quotes are entered again
    calc read ℓ .single (some w) (ℓ.quote :: ℓ.escape :: ℓ.quote :: ℓ.quote :: rest)
        = read ℓ .bare (some w) (ℓ.escape :: ℓ.quote :: ℓ.quote :: rest) :=
          read_single_quote ..
      _ = read ℓ .escaped (some w) (ℓ.quote :: ℓ.quote :: rest) := read_bare_escape ..
      _ = read ℓ .bare (some (w ++ [(.escaped, ℓ.quote)])) (ℓ.quote :: rest) :=
          read_escaped_quote ..
      _ = read ℓ .single (some (w ++ [(.escaped, ℓ.quote)])) rest := read_bare_quote ..
  · rw [if_neg hc, if_neg hc]
    show read ℓ .single (some w) (c :: rest) = _
    rw [read, if_neg hc]
    rfl

/-- Between single quotes, the letters are read one after the other. -/
theorem read_flatMap_quoteLetter (w : Word α) (s rest : List α) :
    read ℓ .single (some w) (s.flatMap (quoteLetter ℓ) ++ rest)
      = read ℓ .single (some (w ++ s.map (preserved ℓ))) rest := by
  induction s generalizing w with
  | nil => rw [List.flatMap_nil, List.nil_append, List.map_nil, List.append_nil]
  | cons c s ih =>
    rw [List.flatMap_cons, List.append_assoc, read_quoteLetter, ih, List.map_cons,
      List.append_assoc]
    rfl

theorem words_quoteWord (s : List α) : words ℓ (quoteWord ℓ s) = some [s.map (preserved ℓ)] := by
  rw [words, quoteWord, read_bare_quote, read_flatMap_quoteLetter, read_single_quote]
  rfl

theorem map_snd_preserved (s : List α) : (s.map (preserved ℓ)).map Prod.snd = s := by
  rw [List.map_map]
  exact List.map_id s

/-- Nothing but the single quotes is outside of single quotes, and these are escaped. -/
theorem preserved_cases (c : α) :
    (preserved ℓ c).1 = .single ∨ (preserved ℓ c).1 = .escaped ∧ c = ℓ.quote := by
  unfold preserved
  by_cases hc : c = ℓ.quote
  · rw [if_pos hc]
    exact Or.inr ⟨rfl, hc⟩
  · rw [if_neg hc]
    exact Or.inl rfl

/-- Each letter counts once, and each single quote three times more. -/
theorem length_quoteWord (s : List α) :
    (quoteWord ℓ s).length = s.length + 3 * s.count ℓ.quote + 2 := by
  have hflat : (s.flatMap (quoteLetter ℓ)).length = s.length + 3 * s.count ℓ.quote := by
    induction s with
    | nil => rfl
    | cons c s ih =>
      rw [List.flatMap_cons, List.length_append, ih, List.length_cons, List.count_cons, quoteLetter]
      by_cases hc : c = ℓ.quote
      · rw [if_pos hc, if_pos (beq_iff_eq.mpr hc)]
        show 4 + _ = _
        omega
      · rw [if_neg hc, if_neg (fun hbeq => hc (beq_iff_eq.mp hbeq))]
        show 1 + _ = _
        omega
  rw [quoteWord, List.length_cons, List.length_append, hflat]
  rfl

/-- A letter of the quoted text is a quote, an escape or a letter of the text. -/
theorem mem_quoteWord {s : List α} {x : α} (hx : x ∈ quoteWord ℓ s) :
    x = ℓ.quote ∨ x = ℓ.escape ∨ x ∈ s := by
  rcases List.mem_cons.mp hx with rfl | hx
  · exact Or.inl rfl
  rcases List.mem_append.mp hx with hx | hx
  · obtain ⟨c, hc, hxc⟩ := List.mem_flatMap.mp hx
    unfold quoteLetter at hxc
    by_cases hq : c = ℓ.quote
    · rw [if_pos hq, hq] at hxc
      simp only [List.mem_cons, List.not_mem_nil, or_false] at hxc
      rcases hxc with rfl | rfl | rfl | rfl
      · exact Or.inl rfl
      · exact Or.inr (Or.inl rfl)
      · exact Or.inl rfl
      · exact Or.inl rfl
    · rw [if_neg hq] at hxc
      exact Or.inr (Or.inr (List.mem_singleton.mp hxc ▸ hc))
  · exact Or.inl (List.mem_singleton.mp hx)

/-! ### Several quoted texts -/

/-- A quoted text goes on with the word that is being read. -/
theorem read_quoteWord (w : Option (Word α)) (s rest : List α) :
    read ℓ .bare w (quoteWord ℓ s ++ rest)
      = read ℓ .bare (some (w.getD [] ++ s.map (preserved ℓ))) rest := by
  rw [quoteWord, List.cons_append, List.append_assoc, read_bare_quote, read_flatMap_quoteLetter,
    List.singleton_append, read_single_quote]

/-- A blank ends the word. -/
theorem read_blank {b : α} (hb : ℓ.blank b = true) (w : Option (Word α)) (rest : List α) :
    read ℓ .bare w (b :: rest) = (words ℓ rest).map (w.toList ++ ·) := by
  rw [read, if_pos hb, words]

/-- A list of texts is read back as it was. -/
theorem words_join {b : α} (hb : ℓ.blank b = true) (ss : List (List α)) :
    words ℓ ([b].intercalate (ss.map (quoteWord ℓ))) = some (ss.map (List.map (preserved ℓ))) := by
  induction ss with
  | nil => rfl
  | cons s ss ih =>
    cases ss with
    | nil =>
      rw [List.map_singleton, List.intercalate_singleton]
      exact words_quoteWord s
    | cons s' ss =>
      rw [List.map_cons, List.map_cons, List.intercalate_cons_cons, words, List.append_assoc,
        read_quoteWord, List.singleton_append, read_blank hb, ← List.map_cons, ih]
      rfl

/-- The letters of the POSIX shell; `special` has also those that it takes for themselves in some
places only. -/
def posix : Lexicon UInt8 where
  quote := '\''.toUInt8
  escape := '\\'.toUInt8
  newline := '\n'.toUInt8
  blank c := c == ' '.toUInt8 || c == '\t'.toUInt8
  special c :=
    (['|', '&', ';', '<', '>', '(', ')', '$', '\"', '\n', '*', '?', '[', ']', '^', '-', '!', '#',
      '~', '=', '%', ','].map Char.toUInt8).contains c || c == 0x60 || c == 0x7b || c == 0x7d
  escape_ne_quote := by decide
  quote_ne_newline := by decide
  not_blank_quote := by decide
  not_blank_escape := by decide

/-- `'it'\''s' x`: two words. -/
example : words posix ("'it'\\''s' x".toList.map Char.toUInt8)
    = some [[(.single, 0x69), (.single, 0x74), (.escaped, 0x27), (.single, 0x73)],
        [(.bare, 0x78)]] := by
  decide

end ShellWords
