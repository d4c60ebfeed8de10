import PrefixCalc.Proofs.Binary64.ReadBack
import PrefixCalc.Proofs.Builtin
import PrefixCalc.Proofs.Numeral.Grammar

/-!
# Casts

A cast reads the longest number that a text starts with, blank characters in front of it being
passed over, and complains of a text that starts with none. What a number is written as is read
back as that number, unless it is a double that is not finite.
-/

namespace PrefixCalc.Cast

open Text Numeral

variable {text : Text} {i : Int} {x : Binary64} {failure : Failure}

/-- A complaint about a text that is no number. -/
def Quotes (text : Text) (failure : Failure) : Prop :=
  ∃ cause, failure = .refused cause none ∧ cause.category = .cast ∧
    ("\"" ++ text ++ "\"" : Text) <+: cause.message

/-! ## §1 What a cast reads -/

private theorem toInt_eq_ok_iff : toInt text = .ok i ↔
    ∃ negative digits, leadingInt? text = some (negative, digits) ∧
      digits.length ≤ Limit.maxDigits ∧ i = ofSign negative (digitsValue digits) := by
  unfold toInt
  cases leadingInt? text with
  | none => simp
  | some found =>
    obtain ⟨negative, digits⟩ := found
    by_cases short : digits.length ≤ Limit.maxDigits
    · simp [short, ofSign, eq_comm]
    · simp [short]

private theorem toFloat_eq_ok_iff : toFloat text = .ok x ↔ leadingFloat? text = some x := by
  unfold toFloat
  cases leadingFloat? text <;> simp

private theorem exists_toFloat_error_iff :
    (∃ failure, toFloat text = .error failure) ↔ leadingFloat? text = none := by
  unfold toFloat
  cases leadingFloat? text <;> simp

private theorem quotes_of_toInt (h : toInt text = .error failure) : Quotes text failure :=
  ⟨_, refused_of_toInt h, rfl, " cannot be cast to an integer.", List.append_assoc ..⟩

private theorem quotes_of_toFloat (h : toFloat text = .error failure) : Quotes text failure :=
  ⟨_, refused_of_toFloat h, rfl, " cannot be cast to a float.", List.append_assoc ..⟩

/-- What is spelled with a sign starts with no blank character. -/
theorem dropWhile_isBlank_of_signed {negative : Bool} {magnitude : Magnitude}
    (spelled : Signed Unbounded text (negative, magnitude)) : text.dropWhile isBlank = text := by
  obtain ⟨signed, spelled⟩ := spelled
  cases signed with
  | plus | minus => rfl
  | absent =>
    cases spelled with
    | infinity => rfl
    | numeral spelled =>
      obtain ⟨c, rest, rfl, first⟩ := spelled.exists_cons
      exact List.dropWhile_cons_of_neg (by simp [not_isBlank_of_isDecimalChar first])

/-- **Casts read longest prefixes.** Behind the blank characters that a text starts with, the cast
to a whole number reads the longest prefix of a sign and digits, if there is one and it does not
have too many digits; the cast to a double reads the longest prefix of a sign and a magnitude, if
there is one. All else is refused, with the text between double quotes. What is spelled is never
refused when it is cast by itself. -/
theorem reads_longest_prefix (text : Text) :
    (∀ i, toInt text = .ok i ↔
      ∃ negative digits,
        LongestPrefix (Signed Digits) (text.dropWhile isBlank) (negative, digits) ∧
          digits.length ≤ Limit.maxDigits ∧ i = ofSign negative (digitsValue digits)) ∧
    (∀ x, toFloat text = .ok x ↔
      ∃ negative magnitude,
        LongestPrefix (Signed Unbounded) (text.dropWhile isBlank) (negative, magnitude) ∧
          x = magnitude.toBinary64 negative) ∧
    ((∃ failure, toFloat text = .error failure) ↔
      ∀ found value, found <+: text.dropWhile isBlank → ¬ Signed Unbounded found value) ∧
    (∀ failure, toInt text = .error failure ∨ toFloat text = .error failure →
      Quotes text failure) ∧
    ∀ negative magnitude, Signed Unbounded text (negative, magnitude) →
      toFloat text = .ok (magnitude.toBinary64 negative) := by
  refine ⟨fun i => ?_, fun x => ?_, ?_, ?_, fun negative magnitude spelled => ?_⟩
  · simp only [toInt_eq_ok_iff, leadingInt?_eq_some_iff]
  · simp only [toFloat_eq_ok_iff, leadingFloat?_eq_some_iff, eq_comm (a := x)]
  · rw [← scans_signedMagnitude.eq_none_iff, exists_toFloat_error_iff, leadingFloat?_eq,
      Option.map_map, Option.map_eq_none_iff]
  · rintro failure (h | h)
    · exact quotes_of_toInt h
    · exact quotes_of_toFloat h
  · rw [toFloat_eq_ok_iff, leadingFloat?_eq, dropWhile_isBlank_of_signed spelled,
      scans_signedMagnitude.of_spelled spelled]
    rfl

/-- Each part of the law at a text. -/
theorem reads_longest_prefix_signedNumerals :
    (∃ negative digits,
      LongestPrefix (Signed Digits) "-12kg" (negative, digits) ∧
        digits.length ≤ Limit.maxDigits ∧ -12 = ofSign negative (digitsValue digits)) ∧
    (∃ negative magnitude,
      LongestPrefix (Signed Unbounded) "-Infinity1" (negative, magnitude) ∧
        .infinite true = magnitude.toBinary64 negative) ∧
    (∀ found value, found <+: ("e5" : Text) → ¬ Signed Unbounded found value) ∧
    Quotes " .e5" (.refused (.noFloat " .e5") none) ∧
    toFloat "+1.5e3" = .ok (Magnitude.toBinary64 false (.numeral ⟨"1", "5", 3⟩)) := by
  have spelled : Signed Unbounded "+1.5e3" (false, .numeral ⟨"1", "5", 3⟩) := by
    have one : Digits "1" "1" := .run (by decide) (by decide)
    have three : Digits "3" "3" := .run (by decide) (by decide)
    have five : ∀ c ∈ ("5" : Text), isDigit c = true := by decide
    have size : Exponent "e3" 3 := .intro (.inl rfl) (.intro .absent three)
    exact .intro .plus (.numeral (.exponent (.point one five) size))
  obtain ⟨toInt_iff, -⟩ := reads_longest_prefix " -12kg"
  obtain ⟨-, toFloat_iff, -⟩ := reads_longest_prefix "-Infinity1"
  obtain ⟨-, -, none_iff, -⟩ := reads_longest_prefix "e5"
  obtain ⟨-, -, -, refused, -⟩ := reads_longest_prefix " .e5"
  obtain ⟨-, -, -, -, whole⟩ := reads_longest_prefix "+1.5e3"
  exact ⟨(toInt_iff (-12)).mp rfl, (toFloat_iff (.infinite true)).mp rfl,
    none_iff.mp ⟨_, rfl⟩, refused _ (.inr rfl), whole _ _ spelled⟩

/-! ## §2 What is written is read back -/

private theorem toInt_ofInt (short : (ofNat i.natAbs).length ≤ Limit.maxDigits)
    (front behind : Text)
    (blank : ∀ c ∈ front, isBlank c = true) (ends : ∀ c ∈ behind.head?, isDigit c = false) :
    toInt (front ++ ofInt i ++ behind) = .ok i := by
  have digits : ∀ c ∈ ofNat i.natAbs, isDigit c = true := fun _ => isDigit_of_mem_ofNat
  have size : i = ofSign (i < 0) (digitsValue (ofNat i.natAbs)) := by
    rw [digitsValue_ofNat, ofSign]
    simp only [decide_eq_true_eq]
    split <;> omega
  have front' : leadingInt? (front ++ ofInt i ++ behind) = leadingInt? (ofInt i ++ behind) := by
    rw [List.append_assoc, leadingInt?, leadingInt?, List.dropWhile_append_of_pos blank]
  rw [toInt_eq_ok_iff, front', ofInt_eq_withSign, withSign_append]
  exact ⟨_, _, leadingInt?_withSign (ofNat_ne_nil _) digits ends _, short, size⟩

/-- **Numbers are read back.** A whole number that is written is read back as that number, also
where blank characters stand in front of it and something other than a digit behind it. A finite
double that is written is read back as that very double. The text of a double that is not finite
is refused. -/
theorem reads_back_text :
    (∀ i : Int, (ofNat i.natAbs).length ≤ Limit.maxDigits →
      ∃ written, (Value.int i).text = .ok written ∧ toInt written = .ok i ∧
        ∀ front behind : Text, (∀ c ∈ front, isBlank c = true) →
          (∀ c ∈ behind.head?, isDigit c = false) → toInt (front ++ written ++ behind) = .ok i) ∧
    (∀ x : Binary64.Finite,
      ∃ written, (Value.scalar (.float (.finite x))).text = .ok written ∧
        toFloat written = .ok (.finite x)) ∧
    ∀ x : Binary64, (∀ y, x ≠ .finite y) →
      ∃ written failure, (Value.scalar (.float x)).text = .ok written ∧
        toFloat written = .error failure ∧ Quotes written failure := by
  refine ⟨fun i short => ?_, fun x => ?_, fun x endless => ?_⟩
  · have text : (Value.int i).text = Text.decimal i := rfl
    refine ⟨ofInt i, text.trans (decimal_of_short short), ?_, toInt_ofInt short⟩
    simpa using toInt_ofInt short [] [] nofun nofun
  · exact ⟨_, rfl, toFloat_eq_ok_iff.mpr (Binary64.leadingFloat?_write _ x)⟩
  · have refused : ∃ failure, toFloat (Scalar.doubleLayout.write x) = .error failure := by
      rw [exists_toFloat_error_iff]
      cases x with
      | finite y => exact absurd rfl (endless y)
      | infinite negative => cases negative <;> rfl
      | nan => rfl
    obtain ⟨failure, refused⟩ := refused
    exact ⟨_, failure, rfl, refused, quotes_of_toFloat refused⟩

/-- Each part of the law at a number. -/
theorem reads_back_text_negative :
    (∃ written, (Value.int (-7)).text = .ok written ∧ toInt written = .ok (-7) ∧
      toInt ("  " ++ written ++ ".5") = .ok (-7)) ∧
    ∃ written failure, (Value.scalar (.float (.infinite true))).text = .ok written ∧
      toFloat written = .error failure ∧ Quotes written failure := by
  obtain ⟨whole, -, endless⟩ := reads_back_text
  obtain ⟨written, text, back, between⟩ := whole (-7) (by decide)
  exact ⟨⟨written, text, back, between "  " ".5" (by decide) (by decide)⟩,
    endless (.infinite true) nofun⟩

end PrefixCalc.Cast
