import PrefixCalc.Proofs.Token.OnePass

/-!
# Lines

A line break separates tokens, unless it stands inside a string. So where the quotes of a
text pair up, the tokens in front of the break are those of the text, and behind it the
tokens are those of what follows.
-/

namespace PrefixCalc.Token

open Text Piece

variable {front back rest : Text} {piece : Piece}

theorem shift_zero (tokens : List Token) : tokens.map (shift 0) = tokens := by
  have unmoved : shift 0 = id := funext fun t => by simp [shift]
  rw [unmoved, List.map_id]

/-- Reading a text is a recursion over its characters, so it can be computed. -/
theorem read_eq_onePassFrom (text : Text) : read text = onePassFrom 0 0 text := by
  rw [← map_shift_read, shift_zero]

theorem significant_append (first second : List Token) :
    significant (first ++ second) = significant first ++ significant second :=
  List.filter_append ..

private theorem significant_map_shift (n : Nat) (tokens : List Token) :
    significant (tokens.map (shift n)) = (significant tokens).map (shift n) := by
  rw [significant, List.filter_map]
  rfl

theorem significant_read_append (h : Taken rest piece) :
    significant (read (piece.text ++ rest))
      = significant (piece.tokens 0)
        ++ (significant (read rest)).map (shift piece.text.length) := by
  rw [read_append h, significant_append, significant_map_shift]

/-! ## §1 Blank characters in front -/

/-- Blank characters in front of a text move its tokens and add none, also when they join the
blank characters that the text starts with. -/
theorem significant_read_blank {run : Text} (all : ∀ c ∈ run, isBlank c = true) (text : Text) :
    significant (read (run ++ text)) = (significant (read text)).map (shift run.length) := by
  -- first for a text that starts with no blank character
  have apart : ∀ run text : Text, (∀ c ∈ run, isBlank c = true) →
      (∀ c ∈ text.head?, isBlank c = false) →
      significant (read (run ++ text)) = (significant (read text)).map (shift run.length) := by
    intro run text all ends
    by_cases none : run = []
    · rw [none, List.nil_append, List.length_nil, shift_zero]
    · have piecewise := significant_read_append (Taken.blank run none all ends)
      exact piecewise
  -- then for any text, which starts with blank characters of its own
  obtain ⟨lead, rest, rfl, blank, ends⟩ : ∃ lead rest, text = lead ++ rest ∧
      (∀ c ∈ lead, isBlank c = true) ∧ ∀ c ∈ rest.head?, isBlank c = false :=
    ⟨_, _, run_split isBlank text⟩
  have whole : ∀ c ∈ run ++ lead, isBlank c = true := by
    intro c member
    rcases List.mem_append.mp member with member | member
    · exact all c member
    · exact blank c member
  rw [← List.append_assoc, apart _ _ whole ends, apart _ _ blank ends, List.map_map]
  simp only [Function.comp_def, shift_shift, List.length_append]

/-! ## §2 The cut at a line break -/

/-- A quote that is dropped is the last one. -/
theorem not_mem_of_taken_quote (h : Taken rest (dropped (.char '"'))) : .char '"' ∉ rest := by
  cases h with
  | quote last => exact last
  | other _ silent => cases silent (.literal .string)

/-- A piece is cut off in front of another text too, if none of the classes that blank characters
are not in goes on there that was over before. -/
theorem taken_of_heads {other : Text} (h : Taken rest piece)
    (ends : ∀ p : CodePoint → Bool, (∀ c, isBlank c = true → p c = false) →
      (∀ c ∈ rest.head?, p c = false) → ∀ c ∈ other.head?, p c = false)
    (blankEnds : ∀ run, piece = blank run → ∀ c ∈ other.head?, isBlank c = false)
    (closed : piece = dropped (.char '"') → .char '"' ∉ other) : Taken other piece := by
  have digit (c : CodePoint) (holds : isBlank c = true) : isDigit c = false :=
    TokenKind.starts_of_isBlank holds (show TokenKind.literal .int ≠ .whitespace by decide)
  have decimalChar (c : CodePoint) (holds : isBlank c = true) : isDecimalChar c = false :=
    TokenKind.starts_of_isBlank holds (show TokenKind.literal .float ≠ .whitespace by decide)
  have letter (c : CodePoint) (holds : isBlank c = true) : isNameLetter c = false :=
    TokenKind.starts_of_isBlank holds (show TokenKind.identifier ≠ .whitespace by decide)
  cases h with
  | quoted inside plain => exact .quoted inside plain
  | blank run nonempty all => exact .blank run nonempty all (blankEnds run rfl)
  | mark m => exact .mark m
  | decimal whole fraction wholeDigits fractionDigits some behind =>
    exact .decimal whole fraction wholeDigits fractionDigits some (ends isDigit digit behind)
  | digits run nonempty all behind =>
    exact .digits run nonempty all (ends isDecimalChar decimalChar behind)
  | letters run nonempty all behind =>
    exact .letters run nonempty all (ends isNameLetter letter behind)
  | quote => exact .quote (closed rfl)
  | point behind => exact .point (ends isDigit digit behind)
  | other c silent => exact .other c silent

/-- A piece at which the text goes on, or that is no run of blank characters, is cut off in
front of a blank character too. An open quote is so only if no quote closes it behind. -/
theorem taken_gap (h : Taken front piece) (gap : ∀ c ∈ back.head?, isBlank c = true)
    (closed : piece ≠ dropped (.char '"') ∨ .char '"' ∉ back)
    (goesOn : front = [] → ∀ run, piece ≠ blank run) : Taken (front ++ back) piece := by
  refine taken_of_heads h (fun p stops ends c first => ?_) ?_ ?_
  · -- the next character is that of the text, or else a blank one, with which no run but a blank
    -- one goes on
    cases front with
    | nil => exact stops c (gap c first)
    | cons d front => exact ends c first
  · rintro run rfl c first
    cases front with
    | nil => exact absurd rfl (goesOn rfl run)
    | cons d front =>
      cases h with
      | blank _ _ _ ends => exact ends c first
  · rintro rfl
    exact List.not_mem_append (not_mem_of_taken_quote h) (closed.resolve_left (absurd rfl))

/-- Quotes stand around strings, and one may be left open. -/
theorem quoted_of_mem (h : Taken rest piece) (member : .char '"' ∈ piece.text) :
    (∃ inside, piece = .quoted inside ∧ .char '"' ∉ inside) ∨ piece = dropped (.char '"') := by
  cases h with
  | quoted inside plain => exact .inl ⟨inside, rfl, fun quote => plain _ quote rfl⟩
  | blank run nonempty all => exact absurd (all _ member) (by decide)
  | mark m => cases m <;> simp [Piece.text, Mark.char] at member
  | decimal whole fraction wholeDigits fractionDigits =>
    rcases List.mem_append.mp member with inWhole | behind
    · exact absurd (wholeDigits _ inWhole) (by decide)
    · rcases List.mem_cons.mp behind with point | inFraction
      · cases point
      · exact absurd (fractionDigits _ inFraction) (by decide)
  | digits run nonempty all => exact absurd (all _ member) (by decide)
  | letters run nonempty all => exact absurd (all _ member) (by decide)
  | quote => exact .inr rfl
  | point => simp [Piece.text] at member
  | other c silent => exact .inr (congrArg dropped (List.mem_singleton.mp member).symm)

/-- A piece other than an open quote holds an even number of quotes. -/
theorem count_quote (h : Taken rest piece) (closed : piece ≠ dropped (.char '"')) :
    piece.text.count (.char '"') % 2 = 0 := by
  by_cases member : .char '"' ∈ piece.text
  · obtain ⟨inside, rfl, plain⟩ := (quoted_of_mem h member).resolve_right closed
    simp [Piece.text, List.count_eq_zero.mpr plain]
  · rw [List.count_eq_zero.mpr member]

/-- **Reading on both sides of a line break.** If the quotes of a text pair up, then the tokens
of the text, a line break and another text are those of both texts, those of the second one at
their places behind the break. -/
theorem significant_read_line (even : front.count (.char '"') % 2 = 0) (back : Text) :
    significant (read (front ++ .char '\n' :: back))
      = significant (read front)
        ++ (significant (read back)).map (shift (front.length + 1)) := by
  have newline : ∀ c ∈ [CodePoint.char '\n'], isBlank c = true := by decide
  -- by the length, since what follows the first piece is a shorter text
  induction size : front.length using Nat.strongRecOn generalizing front with
  | ind n ih =>
    cases front with
    | nil =>
      obtain rfl : 0 = n := size
      rw [read_nil]
      exact significant_read_blank newline back
    | cons c text =>
      obtain ⟨rest, split, taken⟩ := exists_taken c text
      generalize Piece.first c text = piece at split taken
      rw [split] at even size ⊢
      rw [List.count_append] at even
      have closed : piece ≠ dropped (.char '"') := by
        rintro rfl
        -- an open quote is the last one, so the number of quotes would be one
        have last := not_mem_of_taken_quote taken
        simp [Piece.text, List.count_eq_zero.mpr last] at even
      have pairs := count_quote taken closed
      rw [List.length_append] at size
      by_cases ended : rest = [] ∧ ∃ run, piece = blank run
      · -- the text is blank up to the break, and the break is blank too
        obtain ⟨rfl, run, rfl⟩ := ended
        cases taken with
        | blank _ nonempty all =>
          have through : ∀ d ∈ run ++ [.char '\n'], isBlank d = true := by
            intro d member
            rcases List.mem_append.mp member with member | member
            · exact all d member
            · exact newline d member
          have moved := significant_read_blank through back
          have nothing := significant_read_blank all []
          rw [List.append_assoc, List.singleton_append, List.length_append,
            List.length_singleton] at moved
          rw [List.append_nil, read_nil] at nothing
          simp only [Piece.text, List.append_nil, List.length_nil, Nat.add_zero] at size ⊢
          rw [moved, nothing, size]
          rfl
      · have taken' : Taken (rest ++ .char '\n' :: back) piece := by
          refine taken_gap taken (fun d first => newline d ?_) (.inl closed) ?_
          · simpa using first.symm
          · rintro rfl run rfl
            exact ended ⟨rfl, run, rfl⟩
        have some := List.length_pos_iff.mpr (text_ne_nil taken)
        have evenRest : rest.count (.char '"') % 2 = 0 := by omega
        have shorter := ih rest.length (by omega) evenRest rfl
        rw [List.append_assoc, significant_read_append taken', significant_read_append taken,
          shorter, List.map_append, List.append_assoc, List.map_map]
        have places : piece.text.length + (rest.length + 1) = n + 1 := by omega
        simp only [Function.comp_def, shift_shift, places]

end PrefixCalc.Token
