import PrefixCalc.Proofs.Text.Run
import PrefixCalc.Proofs.Text.Scan

/-!
# Matches of the kinds

Which characters a match of a kind starts with, and when it is over. Kinds whose characters
differ cannot match at the same place, and text behind the last character of a match does
not change it.
-/

namespace PrefixCalc.TokenKind

open Text

variable {kind : TokenKind} {c : CodePoint} {front back text : Text}

/-! ## §1 Lengths -/

private theorem runLength_le_length (p : CodePoint → Bool) (text : Text) :
    runLength p text ≤ text.length :=
  (List.takeWhile_prefix p).length_le

private theorem decimalLength_eq (text : Text) :
    decimalLength text =
      match text.dropWhile isDigit with
      | .char '.' :: rest =>
        if runLength isDigit text = 0 && runLength isDigit rest = 0 then 0
        else runLength isDigit text + 1 + runLength isDigit rest
      | _ => 0 := by
  rw [← drop_runLength]
  rfl

theorem matchLength_le_length (kind : TokenKind) (text : Text) :
    kind.matchLength text ≤ text.length := by
  have char : ∀ d, charLength d text ≤ text.length := by
    intro d
    cases text with
    | nil => exact Nat.zero_le _
    | cons c rest =>
      simp only [charLength, List.length_cons]
      split <;> omega
  -- a run and what follows it make up the text
  have split (p : CodePoint → Bool) (text : Text) :
      runLength p text + (text.dropWhile p).length = text.length := by
    rw [runLength, ← List.length_append, List.takeWhile_append_dropWhile]
  cases kind with
  | whitespace | identifier => exact runLength_le_length _ _
  | openParen | closeParen | openBracket | closeBracket => exact char _
  | literal kind =>
    cases kind with
    | int => exact runLength_le_length _ _
    | float =>
      -- digits, a point and digits again, each of them within what the one before left
      have total := split isDigit text
      rw [matchLength, decimalLength_eq]
      split
      · rename_i rest behind
        have fraction := runLength_le_length isDigit rest
        rw [behind, List.length_cons] at total
        split
        · exact Nat.zero_le _
        · show runLength isDigit text + 1 + runLength isDigit rest ≤ text.length
          omega
      · exact Nat.zero_le _
    | string =>
      rw [matchLength, stringLength.eq_def]
      split
      · -- two quotes and what stands between them; behind that is at least the second quote
        rename_i rest
        have total := split isQuotable rest
        split
        · exact Nat.zero_le _
        · rename_i closed
          have : (rest.dropWhile isQuotable).length ≠ 0 := by
            simpa [List.isEmpty_iff] using closed
          rw [List.length_cons]
          omega
      · exact Nat.zero_le _
    | boolean =>
      rw [matchLength, booleanLength]
      split
      · rename_i found
        exact (List.isPrefixOf_iff_prefix.mp found).length_le
      · split
        · rename_i found
          exact (List.isPrefixOf_iff_prefix.mp found).length_le
        · exact Nat.zero_le _

/-! ## §2 First characters -/

/-- The characters that a match of a kind can start with. -/
def starts : TokenKind → CodePoint → Bool
  | literal .string, c => c = '"'
  | whitespace, c => isBlank c
  | openParen, c => c = '('
  | closeParen, c => c = ')'
  | openBracket, c => c = '['
  | closeBracket, c => c = ']'
  | literal .float, c => isDecimalChar c
  | literal .int, c => isDigit c
  | literal .boolean, c | identifier, c => isNameLetter c

private theorem toNat_of_starts (h : kind.starts c = true) :
    match kind with
    | literal .string => c.toNat = 34
    | whitespace => c.toNat < 33 ∨ 132 < c.toNat
    | openParen => c.toNat = 40
    | closeParen => c.toNat = 41
    | openBracket => c.toNat = 91
    | closeBracket => c.toNat = 93
    | literal .float => (48 ≤ c.toNat ∧ c.toNat ≤ 57) ∨ c.toNat = 46
    | literal .int => 48 ≤ c.toNat ∧ c.toNat ≤ 57
    | literal .boolean | identifier =>
      (97 ≤ c.toNat ∧ c.toNat ≤ 122) ∨ (65 ≤ c.toNat ∧ c.toNat ≤ 90) := by
  have at_char : ∀ d : CodePoint, decide (c = d) = true → c.toNat = d.toNat := by
    intro d same
    rw [of_decide_eq_true same]
  cases kind with
  | whitespace => exact lt_or_lt_of_isBlank h
  | identifier => exact (isNameLetter_iff c).mp h
  | openParen | closeParen | openBracket | closeBracket => exact at_char _ h
  | literal kind =>
    cases kind with
    | string => exact at_char _ h
    | int => exact (isDigit_iff c).mp h
    | boolean => exact (isNameLetter_iff c).mp h
    | float =>
      rcases Bool.or_eq_true_iff.mp h with digit | point
      · exact .inl ((isDigit_iff c).mp digit)
      · exact .inr (at_char _ point)

theorem starts_of_isBlank (h : isBlank c = true) (other : kind ≠ whitespace) :
    kind.starts c = false := by
  have blank := lt_or_lt_of_isBlank h
  -- every other kind starts between the space and the controls behind the last letter
  cases found : kind.starts c with
  | false => rfl
  | true =>
    have place := toNat_of_starts found
    cases kind with
    | whitespace => exact absurd rfl other
    | literal kind => cases kind <;> simp only at place <;> omega
    | _ => simp only at place; omega

theorem starts_of_isDigit (h : isDigit c = true) (notInt : kind ≠ literal .int)
    (notFloat : kind ≠ literal .float) : kind.starts c = false := by
  have digit := (isDigit_iff c).mp h
  cases found : kind.starts c with
  | false => rfl
  | true =>
    have place := toNat_of_starts found
    cases kind with
    | literal kind =>
      cases kind with
      | int => exact absurd rfl notInt
      | float => exact absurd rfl notFloat
      | _ => simp only at place; omega
    | _ => simp only at place; omega

theorem starts_of_isNameLetter (h : isNameLetter c = true) (notBoolean : kind ≠ literal .boolean)
    (notName : kind ≠ identifier) : kind.starts c = false := by
  have letter := (isNameLetter_iff c).mp h
  cases found : kind.starts c with
  | false => rfl
  | true =>
    have place := toNat_of_starts found
    cases kind with
    | identifier => exact absurd rfl notName
    | literal kind =>
      cases kind with
      | boolean => exact absurd rfl notBoolean
      | _ => simp only at place; omega
    | _ => simp only at place; omega

theorem matchLength_eq_zero (h : kind.starts c = false) (rest : Text) :
    kind.matchLength (c :: rest) = 0 := by
  cases kind with
  | whitespace | identifier => simp_all [starts, matchLength, runLength]
  | openParen | closeParen | openBracket | closeBracket =>
    simp_all [starts, matchLength, charLength]
  | literal kind =>
    cases kind with
    | int => simp_all [starts, matchLength, runLength]
    | float =>
      obtain ⟨notDigit, notPoint⟩ : isDigit c = false ∧ c ≠ .char '.' := by
        simpa [starts, isDecimalChar] using h
      rw [matchLength, decimalLength_eq]
      simp [notDigit, notPoint]
    | string =>
      have notQuote : c ≠ .char '"' := by simpa [starts] using h
      rw [matchLength, stringLength]
      intro rest' same
      exact notQuote (List.cons.inj same).1
    | boolean =>
      -- the two words start with letters
      have notT : .char 't' ≠ c := by
        rintro rfl
        cases h
      have notF : .char 'f' ≠ c := by
        rintro rfl
        cases h
      have notTrue : ¬ ("true" : Text) <+: c :: rest := fun found =>
        notT (List.cons_prefix_cons.mp found).1
      have notFalse : ¬ ("false" : Text) <+: c :: rest := fun found =>
        notF (List.cons_prefix_cons.mp found).1
      simp [matchLength, booleanLength, notTrue, notFalse]

/-! ## §3 Ends of matches -/

/-- The characters with which a match of a kind may go on. A string goes on until its quote. -/
def continues : TokenKind → CodePoint → Bool
  | literal .string, _ => true
  | openParen, _ | closeParen, _ | openBracket, _ | closeBracket, _ => false
  | kind, c => kind.starts c

theorem continues_eq_false (notString : kind ≠ literal .string) (h : kind.starts c = false) :
    kind.continues c = false := by
  cases kind with
  | literal kind =>
    cases kind with
    | string => exact absurd rfl notString
    | int | float | boolean => exact h
  | whitespace | identifier => exact h
  | openParen | closeParen | openBracket | closeBracket => rfl

private theorem decimalLength_append (h : Stops isDecimalChar front back) :
    decimalLength (front ++ back) = decimalLength front := by
  have le : ∀ c, isDigit c = true → isDecimalChar c = true := fun c digit => by
    simp [isDecimalChar, digit]
  rw [decimalLength_eq, decimalLength_eq, dropWhile_append_of_stops (h.mono le),
    runLength_append_of_stops (h.mono le)]
  -- behind the first digits the run of the class goes on only with a point
  have later := h.dropWhile le
  cases behind : front.dropWhile isDigit with
  | nil =>
    rw [behind] at later
    rcases later with ⟨c, member, -⟩ | fails
    · cases member
    · cases back with
      | nil => rfl
      | cons d back =>
        have notPoint : d ≠ .char '.' := by
          have := fails d rfl
          simp [isDecimalChar] at this
          exact this.2
        simp [notPoint]
  | cons c rest =>
    rw [behind] at later
    by_cases point : c = .char '.'
    · -- behind the point the run goes on with digits only
      subst point
      have fraction := runLength_append_of_stops ((later.tail rfl).mono le)
      simp only [List.cons_append, fraction]
    · simp [point]

private theorem booleanLength_append (h : Stops isNameLetter front back) :
    booleanLength (front ++ back) = booleanLength front := by
  have isTrue : ("true" : Text) <+: front ++ back ↔ _ := prefix_append_iff_of_stops (by decide) h
  have isFalse : ("false" : Text) <+: front ++ back ↔ _ :=
    prefix_append_iff_of_stops (by decide) h
  simp only [booleanLength, List.isPrefixOf_iff_prefix, isTrue, isFalse]

/-- Text behind the end of a run does not change the match at its start. -/
theorem matchLength_append (nonempty : front ≠ []) (h : Stops kind.continues front back) :
    kind.matchLength (front ++ back) = kind.matchLength front := by
  cases front with
  | nil => exact absurd rfl nonempty
  | cons c front =>
    cases kind with
    | whitespace | identifier => exact runLength_append_of_stops h
    | openParen | closeParen | openBracket | closeBracket => rfl
    | literal kind =>
      cases kind with
      | int => exact runLength_append_of_stops h
      | float => exact decimalLength_append h
      | boolean => exact booleanLength_append h
      | string =>
        -- a string may go on to the end of the text, so nothing stands behind `front`
        rcases h with ⟨d, -, fails⟩ | fails
        · cases fails
        · cases back with
          | nil => rw [List.append_nil]
          | cons d back => cases fails d rfl

/-! ## §4 Matches of more than one class -/

theorem stringLength_quoted {inside : Text} (plain : ∀ c ∈ inside, c ≠ .char '"')
    (rest : Text) :
    stringLength (.char '"' :: (inside ++ .char '"' :: rest)) = inside.length + 2 := by
  have all : ∀ c ∈ inside, isQuotable c = true := fun c member => by
    simpa [isQuotable] using plain c member
  have quote : isQuotable (.char '"') = false := rfl
  rw [stringLength, List.dropWhile_append_of_pos all, List.dropWhile_cons_of_neg (by simp [quote]),
    runLength, List.takeWhile_append_of_pos all, List.takeWhile_cons_of_neg (by simp [quote])]
  simp

theorem stringLength_of_not_mem {rest : Text} (last : .char '"' ∉ rest) :
    stringLength (.char '"' :: rest) = 0 := by
  have all : ∀ c ∈ rest, isQuotable c = true := fun c member => by
    simp only [isQuotable, decide_eq_true_eq]
    rintro rfl
    exact last member
  rw [stringLength, List.dropWhile_eq_nil_iff.mpr all]
  rfl

/-- Whatever is read as a string is a text between quotes. -/
theorem exists_quoted_of_stringLength (some : stringLength text ≠ 0) :
    ∃ inside rest, text = .char '"' :: (inside ++ .char '"' :: rest) ∧
      (∀ c ∈ inside, c ≠ .char '"') ∧ stringLength text = inside.length + 2 := by
  unfold stringLength at some
  split at some
  · rename_i behind
    have plain : ∀ c ∈ behind.takeWhile isQuotable, c ≠ .char '"' := fun c member => by
      simpa [isQuotable] using List.mem_takeWhile_imp member
    have ends := head?_dropWhile isQuotable behind
    have split := List.takeWhile_append_dropWhile (p := isQuotable) (l := behind)
    cases later : behind.dropWhile isQuotable with
    | nil => simp [later] at some
    | cons d rest =>
      rw [later] at ends split
      obtain rfl : d = .char '"' := by simpa [isQuotable] using ends d rfl
      rw [← split]
      exact ⟨_, rest, rfl, plain, stringLength_quoted plain rest⟩
  · exact absurd rfl some

/-- A decimal ends behind the digits that follow its point. -/
theorem decimalLength_decimal {whole fraction rest : Text}
    (wholeDigits : ∀ c ∈ whole, isDigit c = true)
    (fractionDigits : ∀ c ∈ fraction, isDigit c = true) (some : whole ≠ [] ∨ fraction ≠ [])
    (ends : ∀ c ∈ rest.head?, isDigit c = false) :
    decimalLength (whole ++ .char '.' :: (fraction ++ rest))
      = whole.length + (fraction.length + 1) := by
  have point : isDigit (.char '.') = false := rfl
  have before : runLength isDigit (whole ++ .char '.' :: (fraction ++ rest)) = whole.length := by
    rw [runLength, List.takeWhile_append_of_pos wholeDigits,
      List.takeWhile_cons_of_neg (by simp [point]), List.append_nil]
  have behind : runLength isDigit (fraction ++ rest) = fraction.length := by
    rw [runLength_append_of_stops (.inr ends), runLength_of_all fractionDigits]
  rw [decimalLength_eq, List.dropWhile_append_of_pos wholeDigits,
    List.dropWhile_cons_of_neg (by simp [point]), before]
  -- one of the two runs is not empty, so the point is part of a decimal
  have notEmpty : ¬ (whole = [] ∧ fraction = []) := fun none =>
    some.elim (absurd none.1) (absurd none.2)
  simp only [behind, List.length_eq_zero_iff, Bool.and_eq_true, decide_eq_true_eq, notEmpty,
    if_false]
  show whole.length + 1 + fraction.length = whole.length + (fraction.length + 1)
  omega

/-- Whatever is read as a decimal is digits around a point. -/
theorem exists_decimal_of_decimalLength (positive : decimalLength text ≠ 0) :
    ∃ whole fraction rest, text = whole ++ .char '.' :: (fraction ++ rest) ∧
      (∀ c ∈ whole, isDigit c = true) ∧ (∀ c ∈ fraction, isDigit c = true) ∧
      (whole ≠ [] ∨ fraction ≠ []) ∧
      decimalLength text = whole.length + (fraction.length + 1) := by
  have digits (text : Text) : ∀ c ∈ text.takeWhile isDigit, isDigit c = true :=
    fun c => List.mem_takeWhile_imp
  have split (text : Text) := List.takeWhile_append_dropWhile (p := isDigit) (l := text)
  rw [decimalLength_eq] at positive
  split at positive
  · rename_i behind point
    have some : text.takeWhile isDigit ≠ [] ∨ behind.takeWhile isDigit ≠ [] := by
      refine Decidable.byContradiction fun none => positive ?_
      obtain ⟨noWhole, noFraction⟩ := not_or.mp none
      rw [runLength, runLength, not_not.mp noWhole, not_not.mp noFraction]
      rfl
    have whole : text = text.takeWhile isDigit
        ++ .char '.' :: (behind.takeWhile isDigit ++ behind.dropWhile isDigit) := by
      rw [split behind, ← point, split text]
    refine ⟨_, _, _, whole, digits text, digits behind, some, ?_⟩
    have length := decimalLength_decimal (digits text) (digits behind) some
      (head?_dropWhile isDigit behind)
    rwa [← whole] at length
  · exact absurd rfl positive

theorem decimalLength_decimal_alone {whole fraction : Text}
    (wholeDigits : ∀ c ∈ whole, isDigit c = true)
    (fractionDigits : ∀ c ∈ fraction, isDigit c = true) (some : whole ≠ [] ∨ fraction ≠ []) :
    decimalLength (whole ++ .char '.' :: fraction)
      = (whole ++ .char '.' :: fraction).length := by
  have none : ∀ c ∈ ([] : Text).head?, isDigit c = false := by simp
  have alone := decimalLength_decimal wholeDigits fractionDigits some none
  rw [List.append_nil] at alone
  rw [alone, List.length_append, List.length_cons]

theorem decimalLength_point {rest : Text} (ends : ∀ c ∈ rest.head?, isDigit c = false) :
    decimalLength (.char '.' :: rest) = 0 := by
  have point : isDigit (.char '.') = false := rfl
  have before : runLength isDigit (.char '.' :: rest) = 0 := by
    rw [runLength, List.takeWhile_cons_of_neg (by simp [point])]
    rfl
  have behind : runLength isDigit ([] ++ rest) = 0 := runLength_append_of_stops (.inr ends)
  rw [List.nil_append] at behind
  rw [decimalLength_eq, List.dropWhile_cons_of_neg (by simp [point]), before]
  simp only [behind]
  rfl

theorem decimalLength_of_digits (all : ∀ c ∈ text, isDigit c = true) :
    decimalLength text = 0 := by
  rw [decimalLength_eq, List.dropWhile_eq_nil_iff.mpr all]

end PrefixCalc.TokenKind
