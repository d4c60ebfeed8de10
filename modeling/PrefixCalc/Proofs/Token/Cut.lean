import PrefixCalc.Proofs.Token.Match
import PrefixCalc.Proofs.Token.Piece
import PrefixCalc.Proofs.Token.Selection

/-!
# The cut behind a piece

A piece ends where the text goes on with a character of another class. No kind reads across
such a place: its match inside the piece is over before, or it reads nothing in the piece,
or its match is the piece itself.
-/

namespace PrefixCalc

namespace Piece

open Text TokenKind Candidate

variable {rest : Text} {piece : Piece}

/-! ## §1 Where pieces end -/

/-- What is known of a piece and the text behind it when the reader has cut it off. -/
inductive Taken (rest : Text) : Piece → Prop where
  | quoted (inside : Text) (plain : ∀ c ∈ inside, c ≠ .char '"') : Taken rest (quoted inside)
  | blank (run : Text) (nonempty : run ≠ []) (all : ∀ c ∈ run, isBlank c = true)
      (ends : ∀ c ∈ rest.head?, isBlank c = false) : Taken rest (blank run)
  | mark (m : Mark) : Taken rest (mark m)
  | decimal (whole fraction : Text) (wholeDigits : ∀ c ∈ whole, isDigit c = true)
      (fractionDigits : ∀ c ∈ fraction, isDigit c = true) (some : whole ≠ [] ∨ fraction ≠ [])
      (ends : ∀ c ∈ rest.head?, isDigit c = false) : Taken rest (decimal whole fraction)
  | digits (run : Text) (nonempty : run ≠ []) (all : ∀ c ∈ run, isDigit c = true)
      (ends : ∀ c ∈ rest.head?, isDecimalChar c = false) : Taken rest (digits run)
  | letters (run : Text) (nonempty : run ≠ []) (all : ∀ c ∈ run, isNameLetter c = true)
      (ends : ∀ c ∈ rest.head?, isNameLetter c = false) : Taken rest (letters run)
  /-- A last quote. -/
  | quote (last : .char '"' ∉ rest) : Taken rest (dropped (.char '"'))
  /-- A point without digits. -/
  | point (ends : ∀ c ∈ rest.head?, isDigit c = false) : Taken rest (dropped (.char '.'))
  /-- A character that starts no match of any kind. -/
  | other (c : CodePoint) (silent : ∀ kind : TokenKind, kind.starts c = false) :
      Taken rest (dropped c)

/-- The run of a class at the start of a text is followed by another character. -/
theorem run_split (p : CodePoint → Bool) (text : Text) :
    text = text.takeWhile p ++ text.dropWhile p ∧
    (∀ c ∈ text.takeWhile p, p c = true) ∧ ∀ c ∈ (text.dropWhile p).head?, p c = false :=
  ⟨List.takeWhile_append_dropWhile.symm, fun _ => List.mem_takeWhile_imp, head?_dropWhile p text⟩

private theorem run_split_cons {p : CodePoint → Bool} {c : CodePoint} (holds : p c = true)
    (rest : Text) :
    c :: rest = c :: rest.takeWhile p ++ rest.dropWhile p ∧
    (∀ d ∈ c :: rest.takeWhile p, p d = true) ∧ ∀ d ∈ (rest.dropWhile p).head?, p d = false := by
  have split := run_split p (c :: rest)
  rwa [List.takeWhile_cons_of_pos holds, List.dropWhile_cons_of_pos holds] at split

private theorem exists_taken_quoted (closed : .char '"' ∈ rest) :
    ∃ behind, .char '"' :: rest = (quoted (rest.takeWhile (· ≠ .char '"'))).text ++ behind ∧
      Taken behind (quoted (rest.takeWhile (· ≠ .char '"'))) := by
  obtain ⟨split, plain, ends⟩ := run_split (· ≠ .char '"') rest
  cases later : rest.dropWhile (· ≠ .char '"') with
  | nil => simpa using List.dropWhile_eq_nil_iff.mp later _ closed
  | cons d behind =>
    rw [later] at ends
    obtain rfl : d = .char '"' := by simpa using ends d rfl
    refine ⟨behind, ?_, .quoted _ fun c member => by simpa using plain c member⟩
    rw [later] at split
    rw [text, List.cons_append, List.append_assoc, List.singleton_append, ← split]

private theorem exists_taken_decimal {whole behind : Text} (all : ∀ c ∈ whole, isDigit c = true)
    (some : whole ≠ [] ∨ behind.takeWhile isDigit ≠ []) :
    ∃ rest, whole ++ .char '.' :: behind = (decimal whole (behind.takeWhile isDigit)).text ++ rest ∧
      Taken rest (decimal whole (behind.takeWhile isDigit)) := by
  obtain ⟨split, digits, ends⟩ := run_split isDigit behind
  refine ⟨behind.dropWhile isDigit, ?_, .decimal whole _ all digits some ends⟩
  rw [text, List.append_assoc, List.cons_append, ← split]

/-- A character that is of none of the classes starts no match of any kind. -/
private theorem starts_eq_false_of_other {c : CodePoint} (notQuote : c ≠ .char '"')
    (notBlank : ¬ isBlank c = true) (notDigit : ¬ isDigit c = true) (notPoint : c ≠ .char '.')
    (notLetter : ¬ isNameLetter c = true) (notMark : ∀ m : Mark, c ≠ m.char) (kind : TokenKind) :
    kind.starts c = false := by
  cases kind with
  | whitespace => exact Bool.eq_false_iff.mpr notBlank
  | identifier => exact Bool.eq_false_iff.mpr notLetter
  | openParen => exact decide_eq_false (notMark .openParen)
  | closeParen => exact decide_eq_false (notMark .closeParen)
  | openBracket => exact decide_eq_false (notMark .openBracket)
  | closeBracket => exact decide_eq_false (notMark .closeBracket)
  | literal kind =>
    cases kind with
    | string => exact decide_eq_false notQuote
    | int => exact Bool.eq_false_iff.mpr notDigit
    | boolean => exact Bool.eq_false_iff.mpr notLetter
    | float => simp [starts, isDecimalChar, notDigit, notPoint]

/-- The reader cuts off a piece of the text. -/
theorem exists_taken (c : CodePoint) (rest : Text) :
    ∃ behind, c :: rest = (first c rest).text ++ behind ∧ Taken behind (first c rest) := by
  -- The branches are those of `first`, in their order; the hypotheses that say that the branches
  -- before were not taken are kept for the last one.
  unfold first
  split
  · -- a quote: the string reaches to the next one, and without a next one there is no string
    rename_i quote
    subst quote
    split
    · rename_i closed
      exact exists_taken_quoted closed
    · rename_i last
      exact ⟨rest, rfl, .quote last⟩
  rename_i notQuote
  split
  · rename_i holds
    obtain ⟨split, all, ends⟩ := run_split_cons holds rest
    exact ⟨_, split, .blank _ (by simp) all ends⟩
  rename_i notBlank
  split
  · rename_i holds
    obtain ⟨split, all, ends⟩ := run_split_cons holds rest
    split
    · -- a point follows the digits, and more digits may follow the point
      rename_i behind point
      rw [split, point]
      exact exists_taken_decimal all (.inl (by simp))
    · -- what ends the digits is no point either
      rename_i noPoint
      refine ⟨_, split, .digits _ (by simp) all fun d first => ?_⟩
      have notPoint : d ≠ .char '.' := by
        rintro rfl
        obtain ⟨later, behind⟩ := List.head?_eq_some_iff.mp first
        exact noPoint later behind
      simp [isDecimalChar, ends d first, notPoint]
  rename_i notDigit
  split
  · rename_i point
    subst point
    split
    · -- a decimal without whole digits
      rename_i digit
      have nonempty : rest.takeWhile isDigit ≠ [] := by
        cases rest with
        | nil => cases digit
        | cons d rest =>
          have holds : isDigit d = true := by simpa using digit
          rw [List.takeWhile_cons_of_pos holds]
          exact List.cons_ne_nil _ _
      have none : ∀ c ∈ ([] : Text), isDigit c = true := List.forall_mem_nil _
      exact exists_taken_decimal none (.inr nonempty)
    · rename_i noDigit
      refine ⟨rest, rfl, .point fun d first => ?_⟩
      rw [Option.mem_def.mp first] at noDigit
      simpa using noDigit
  rename_i notPoint
  split
  · rename_i holds
    obtain ⟨split, all, ends⟩ := run_split_cons holds rest
    exact ⟨_, split, .letters _ (by simp) all ends⟩
  rename_i notLetter
  split
  · rename_i m found
    have char : m.char = c := by simpa using List.find?_some found
    exact ⟨rest, by rw [text, char, List.singleton_append], .mark m⟩
  · -- the character has been tried for every kind
    rename_i noMark
    have notMark : ∀ m : Mark, c ≠ m.char := by
      rintro m rfl
      cases m <;> cases noMark
    exact ⟨rest, rfl, .other c
      (starts_eq_false_of_other notQuote notBlank notDigit notPoint notLetter notMark)⟩

/-! ## §2 No kind reads across the end of a piece -/

section

variable {kind : TokenKind} {front back : Text}

private theorem parts_of_suffixes
    (same : ∀ suffix, suffix <:+ front → suffix ≠ [] →
      kind.matchLength (suffix ++ back) = kind.matchLength suffix) : Parts kind front back :=
  parts_of_scanFrom (scanFrom_append (matchLength_le_length kind) same (Nat.zero_le _) 0)

private theorem parts_of_ends
    (h : (∀ c ∈ front.getLast?, kind.continues c = false) ∨
      ∀ c ∈ back.head?, kind.continues c = false) : Parts kind front back := by
  apply parts_of_suffixes
  intro suffix part nonempty
  exact matchLength_append nonempty (.of_suffix part nonempty h)

private theorem parts_of_silent (silent : ∀ c ∈ front, kind.starts c = false) :
    Parts kind front back := by
  apply parts_of_suffixes
  intro suffix part nonempty
  cases suffix with
  | nil => exact absurd rfl nonempty
  | cons c suffix =>
    have none := silent c (part.mem List.mem_cons_self)
    rw [List.cons_append, matchLength_eq_zero none, matchLength_eq_zero none]

private theorem parts_of_singleton {c : CodePoint} (inText : kind.matchLength (c :: back) = 0)
    (alone : kind.matchLength [c] = 0) : Parts kind [c] back := by
  apply parts_of_suffixes
  intro suffix part nonempty
  rcases List.suffix_cons_iff.mp part with rfl | part
  · rw [alone]
    exact inText
  · exact absurd (List.suffix_nil.mp part) nonempty

private theorem parts_of_whole (nonempty : front ≠ [])
    (inText : kind.matchLength (front ++ back) = front.length)
    (alone : kind.matchLength front = front.length) : Parts kind front back := by
  apply parts_of_scanFrom
  rw [scanFrom_append_of_whole nonempty inText, scanFrom_of_whole nonempty alone]
  rfl

end

private theorem starts_quote {kind : TokenKind} (other : kind ≠ literal .string) :
    kind.starts (.char '"') = false := by
  cases kind with
  | literal kind =>
    cases kind with
    | string => exact absurd rfl other
    | _ => rfl
  | _ => rfl

private theorem starts_point {kind : TokenKind} (other : kind ≠ literal .float) :
    kind.starts (.char '.') = false := by
  cases kind with
  | literal kind =>
    cases kind with
    | float => exact absurd rfl other
    | _ => rfl
  | _ => rfl

theorem starts_mark {kind : TokenKind} {m : Mark} (other : kind ≠ m.kind) :
    kind.starts m.char = false := by
  cases m <;> cases kind with
  | literal kind => cases kind <;> rfl
  | _ => first | rfl | exact absurd rfl other

theorem starts_decimal {kind : TokenKind} {whole fraction : Text}
    (wholeDigits : ∀ c ∈ whole, isDigit c = true)
    (fractionDigits : ∀ c ∈ fraction, isDigit c = true) (notInt : kind ≠ literal .int)
    (notFloat : kind ≠ literal .float) :
    ∀ c ∈ (decimal whole fraction).text, kind.starts c = false := by
  intro c member
  rcases List.mem_append.mp member with member | member
  · exact starts_of_isDigit (wholeDigits c member) notInt notFloat
  · rcases List.mem_cons.mp member with rfl | member
    · exact starts_point notFloat
    · exact starts_of_isDigit (fractionDigits c member) notInt notFloat

section

variable {kind : TokenKind}

/-- A string is read as a whole whatever follows, so its end is not told by what follows. -/
private theorem parts_quoted {inside : Text} (plain : ∀ c ∈ inside, c ≠ .char '"') :
    Parts kind (quoted inside).text rest := by
  by_cases string : kind = literal .string
  · subst string
    have inText := stringLength_quoted plain rest
    have alone := stringLength_quoted plain []
    refine parts_of_whole (List.cons_ne_nil _ _) ?_ ?_
    · simpa [text, matchLength] using inText
    · simpa [text, matchLength] using alone
  · -- other kinds read what is inside the string as they like, but go no further than the quote
    -- that ends it, since none of them reads a quote
    refine parts_of_ends (.inl fun c last => ?_)
    obtain rfl : .char '"' = c := by simpa [text, List.getLast?_cons] using last
    exact continues_eq_false string (starts_quote string)

/-- A decimal may be followed by a second point, with which a match could go on: `1.5` in `1.5.2`.
It does not, because a match holds one point only. -/
private theorem parts_decimal {whole fraction : Text} (wholeDigits : ∀ c ∈ whole, isDigit c = true)
    (fractionDigits : ∀ c ∈ fraction, isDigit c = true) (some : whole ≠ [] ∨ fraction ≠ [])
    (ends : ∀ c ∈ rest.head?, isDigit c = false) :
    Parts kind (decimal whole fraction).text rest := by
  by_cases float : kind = literal .float
  · subst float
    refine parts_of_whole (by simp [text]) ?_ ?_
    · simpa [text, matchLength] using
        decimalLength_decimal wholeDigits fractionDigits some ends
    · exact decimalLength_decimal_alone wholeDigits fractionDigits some
  by_cases int : kind = literal .int
  · -- ints are read on both sides of the point, and the last one ends with the digits
    subst int
    exact parts_of_ends (.inr ends)
  · exact parts_of_silent (starts_decimal wholeDigits fractionDigits int float)

/-- Digits are cut off where neither a digit nor a point follows, which ends ints and floats. -/
private theorem parts_digits {run : Text} (all : ∀ c ∈ run, isDigit c = true)
    (ends : ∀ c ∈ rest.head?, isDecimalChar c = false) :
    Parts kind (digits run).text rest := by
  by_cases float : kind = literal .float
  · subst float
    exact parts_of_ends (.inr ends)
  by_cases int : kind = literal .int
  · subst int
    refine parts_of_ends (.inr fun c first => ?_)
    have noDigit := ends c first
    simp only [isDecimalChar, Bool.or_eq_false_iff] at noDigit
    exact noDigit.1
  · exact parts_of_silent fun c member => starts_of_isDigit (all c member) int float

/-- **No kind reads across the end of a piece.** -/
theorem parts_of_taken (h : Taken rest piece) (kind : TokenKind) :
    Parts kind piece.text rest := by
  -- In each piece the kinds that read something of it come first: where the text behind the piece
  -- cannot go on with their class, every match is over. All other kinds are silent in the piece.
  cases h with
  | quoted inside plain => exact parts_quoted plain
  | blank run nonempty all ends =>
    by_cases white : kind = whitespace
    · subst white
      exact parts_of_ends (.inr ends)
    · exact parts_of_silent fun c member => starts_of_isBlank (all c member) white
  | mark m =>
    by_cases own : kind = m.kind
    · -- a mark is a match of its own, and the same mark behind it is the next one
      subst own
      refine parts_of_ends (.inl fun c _ => ?_)
      cases m <;> rfl
    · exact parts_of_silent fun c member => List.mem_singleton.mp member ▸ starts_mark own
  | decimal whole fraction wholeDigits fractionDigits some ends =>
    exact parts_decimal wholeDigits fractionDigits some ends
  | digits run nonempty all ends => exact parts_digits all ends
  | letters run nonempty all ends =>
    -- `true` and `false` are matched inside a longer run of letters too, but not past its end
    by_cases boolean : kind = literal .boolean
    · subst boolean
      exact parts_of_ends (.inr ends)
    by_cases name : kind = identifier
    · subst name
      exact parts_of_ends (.inr ends)
    · exact parts_of_silent fun c member => starts_of_isNameLetter (all c member) boolean name
  -- What is dropped is a single character. Only the kind that it could start is in question, and
  -- that kind finds no match here, in the text as little as alone.
  | quote last =>
    by_cases string : kind = literal .string
    · subst string
      exact parts_of_singleton (stringLength_of_not_mem last) rfl
    · exact parts_of_silent fun c member => List.mem_singleton.mp member ▸ starts_quote string
  | point ends =>
    by_cases float : kind = literal .float
    · subst float
      exact parts_of_singleton (decimalLength_point ends) rfl
    · exact parts_of_silent fun c member => List.mem_singleton.mp member ▸ starts_point float
  | other c silent =>
    exact parts_of_silent fun d member => List.mem_singleton.mp member ▸ silent kind

end

end Piece

end PrefixCalc
