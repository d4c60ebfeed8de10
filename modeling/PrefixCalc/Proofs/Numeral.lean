import PrefixCalc.Numeral
import PrefixCalc.Proofs.Text.Decimal

/-!
# Laws of numerals

A numeral is scanned from left to right: a run of digits, a point with a run of digits behind it,
and an exponent with a sign. Each part ends where the next character no longer fits, whatever
else stands behind it.
-/

namespace PrefixCalc

open Text

/-! ## §1 Runs of digits -/

namespace Text

variable {digits rest : Text}

private theorem takeWhile_digits (all : ∀ c ∈ digits, isDigit c = true)
    (ends : ∀ c ∈ rest.head?, isDigit c = false) : (digits ++ rest).takeWhile isDigit = digits := by
  rw [takeWhile_append_of_stops (.inr ends), List.takeWhile_eq_self_iff.mpr all]

private theorem dropWhile_digits (all : ∀ c ∈ digits, isDigit c = true)
    (ends : ∀ c ∈ rest.head?, isDigit c = false) : (digits ++ rest).dropWhile isDigit = rest := by
  rw [dropWhile_append_of_stops (.inr ends), List.dropWhile_eq_nil_iff.mpr all, List.nil_append]

end Text

namespace Numeral

variable {whole fraction digits rest after text : Text} {n : Numeral} {exponent : Int}

/-! ## §2 Numerals without an exponent -/

/-- Digits with no point behind them. -/
theorem scanPlain_whole (all : ∀ c ∈ whole, isDigit c = true)
    (ends : ∀ c ∈ rest.head?, isDecimalChar c = false) :
    scanPlain (whole ++ rest) = ({ whole, fraction := [] }, rest) := by
  have noDigit : ∀ c ∈ rest.head?, isDigit c = false := fun c first => by
    have := ends c first
    rw [isDecimalChar, Bool.or_eq_false_iff] at this
    exact this.1
  rw [scanPlain, takeWhile_digits all noDigit, dropWhile_digits all noDigit]
  split
  · -- the rest does not start with a point
    have := ends (.char '.') rfl
    cases this
  · rfl

/-- Digits around a point. -/
theorem scanPlain_point (wholeDigits : ∀ c ∈ whole, isDigit c = true)
    (fractionDigits : ∀ c ∈ fraction, isDigit c = true)
    (ends : ∀ c ∈ rest.head?, isDigit c = false) :
    scanPlain (whole ++ .char '.' :: (fraction ++ rest)) = ({ whole, fraction }, rest) := by
  have point : ∀ c ∈ (CodePoint.char '.' :: (fraction ++ rest)).head?, isDigit c = false := by
    simp [isDigit]
    decide
  simp only [scanPlain, takeWhile_digits wholeDigits point, dropWhile_digits wholeDigits point,
    takeWhile_digits fractionDigits ends, dropWhile_digits fractionDigits ends]

/-! ## §3 Exponents -/

/-- The sign of an exponent. -/
def signChar (negative : Bool) : CodePoint := if negative then .char '-' else .char '+'

private theorem scanSign_signChar (negative : Bool) (text : Text) :
    scanSign (signChar negative :: text) = (negative, text) := by
  cases negative <;> rfl

theorem scanExponent?_signed (negative : Bool) (some : digits ≠ [])
    (all : ∀ c ∈ digits, isDigit c = true) (ends : ∀ c ∈ rest.head?, isDigit c = false) :
    scanExponent? (.char 'e' :: signChar negative :: (digits ++ rest))
      = .some (if negative then -(digitsValue digits : Int) else digitsValue digits, rest) := by
  rw [scanExponent?, scanSign_signChar]
  simp only [takeWhile_digits all ends, dropWhile_digits all ends]
  simp [some]

theorem scan?_of_exponent (plain : scanPlain text = (n, rest)) (some : n.whole ≠ [])
    (found : scanExponent? rest = .some (exponent, after)) :
    scan? text = .some ({ n with exponent }, after) := by
  simp [scan?, plain, some, found]

theorem scan?_of_plain (plain : scanPlain text = (n, rest)) (some : n.whole ≠ [])
    (none : scanExponent? rest = none) : scan? text = .some (n, rest) := by
  simp [scan?, plain, some, none]

/-! ## §4 Numbers that a text starts with -/

/-- A text with a minus in front of it, if it is negative. -/
def withSign (negative : Bool) (text : Text) : Text :=
  if negative then .char '-' :: text else text

theorem withSign_append (negative : Bool) (front back : Text) :
    withSign negative front ++ back = withSign negative (front ++ back) := by
  cases negative <;> rfl

theorem not_isBlank_of_isDecimalChar {c : CodePoint} (decimal : isDecimalChar c = true) :
    isBlank c = false := by
  rcases Bool.or_eq_true_iff.mp decimal with digit | point
  · have := (isDigit_iff c).mp digit
    by_contra blank
    have := lt_or_lt_of_isBlank (Bool.of_not_eq_false blank)
    omega
  · rw [of_decide_eq_true point]
    decide

private theorem not_isBlank_of_isDigit {c : CodePoint} (digit : isDigit c = true) :
    isBlank c = false :=
  not_isBlank_of_isDecimalChar (by rw [isDecimalChar, digit, Bool.true_or])

private theorem dropWhile_withSign {c : CodePoint} (digit : isDigit c = true) (negative : Bool)
    (rest : Text) :
    (withSign negative (c :: rest)).dropWhile isBlank = withSign negative (c :: rest) := by
  cases negative with
  | true => rfl
  | false => exact List.dropWhile_cons_of_neg (by simp [not_isBlank_of_isDigit digit])

/-- What starts with no sign is not negative. -/
theorem scanSign_of_ne {c : CodePoint} (notMinus : c ≠ .char '-') (notPlus : c ≠ .char '+') :
    scanSign (c :: rest) = (false, c :: rest) := by
  unfold scanSign
  split
  · rename_i same
    cases same
    exact absurd rfl notMinus
  · rename_i same
    cases same
    exact absurd rfl notPlus
  · rfl

theorem ne_sign_of_isDigit {c : CodePoint} (digit : isDigit c = true) :
    c ≠ .char '-' ∧ c ≠ .char '+' := by
  constructor <;> rintro rfl <;> exact absurd digit (by decide)

/-- The sign is read off, as a digit is none. -/
theorem scanSign_withSign {c : CodePoint} (digit : isDigit c = true) (negative : Bool)
    (rest : Text) : scanSign (withSign negative (c :: rest)) = (negative, c :: rest) := by
  cases negative with
  | true => rfl
  | false => exact scanSign_of_ne (ne_sign_of_isDigit digit).1 (ne_sign_of_isDigit digit).2

theorem ofInt_eq_withSign (i : Int) : ofInt i = withSign (i < 0) (ofNat i.natAbs) := by
  cases i with
  | ofNat i => rfl
  | negSucc i =>
    rw [decide_eq_true (Int.negSucc_lt_zero i)]
    rfl

theorem leadingInt?_withSign (some : digits ≠ []) (all : ∀ c ∈ digits, isDigit c = true)
    (ends : ∀ c ∈ rest.head?, isDigit c = false) (negative : Bool) :
    leadingInt? (withSign negative (digits ++ rest)) = .some (negative, digits) := by
  obtain ⟨c, others, rfl⟩ := List.exists_cons_of_ne_nil some
  have digit := all c List.mem_cons_self
  rw [leadingInt?, List.cons_append, dropWhile_withSign digit, scanSign_withSign digit,
    ← List.cons_append]
  simp only [takeWhile_digits all ends]
  rfl

theorem leadingFloat?_withSign {c : CodePoint} (digit : isDigit c = true)
    (found : scan? (c :: rest) = .some (n, after)) (negative : Bool) :
    leadingFloat? (withSign negative (c :: rest)) = .some (n.toBinary64 negative) := by
  -- a digit does not start the word for infinity
  have number : ("Infinity" : Text).isPrefixOf (c :: rest) = false := by
    by_contra word
    obtain ⟨behind, split⟩ := List.isPrefixOf_iff_prefix.mp (Bool.of_not_eq_false word)
    cases split
    cases digit
  rw [leadingFloat?, dropWhile_withSign digit, scanSign_withSign digit]
  simp [number, found]

end Numeral

end PrefixCalc
