import PrefixCalc.Binary64.Rounding
import PrefixCalc.Text.Blank

/-!
# Numerals

Decimal numerals at the start of a text: an unsigned decimal with an optional exponent,
and the whole and decimal numbers that a text starts with once blank characters and a
sign are passed. What follows the longest numeral is returned or ignored, never an
error.
-/

namespace PrefixCalc

/-- An unsigned decimal numeral: digits before the point, digits after it, and an exponent. -/
structure Numeral where
  whole : Text
  fraction : Text
  exponent : Int := 0
  deriving DecidableEq, Repr

namespace Numeral

/-- The double nearest to a numeral with the given sign. -/
def toBinary64 (n : Numeral) (negative : Bool) : Binary64 :=
  .ofDecimal negative (Text.digitsValue (n.whole ++ n.fraction))
    (n.exponent - n.fraction.length)

/-! ## §1 Scanning -/

/-- A sign at the start of a text, as "is it negative", and the text after it. -/
def scanSign : Text → Bool × Text
  | .char '-' :: rest => (true, rest)
  | .char '+' :: rest => (false, rest)
  | text => (false, text)

/-- Digits, and if a point follows, the digits after it; either run may be empty. -/
def scanPlain (text : Text) : Numeral × Text :=
  let whole := text.takeWhile Text.isDigit
  match text.dropWhile Text.isDigit with
  | .char '.' :: rest =>
    ({ whole, fraction := rest.takeWhile Text.isDigit }, rest.dropWhile Text.isDigit)
  | rest => ({ whole, fraction := [] }, rest)

/-- A complete exponent at the start of a text, and the text after it. -/
def scanExponent? : Text → Option (Int × Text)
  | [] => none
  | mark :: text =>
    let (negative, rest) := scanSign text
    let digits := rest.takeWhile Text.isDigit
    if (mark = 'e' || mark = 'E') && !digits.isEmpty then
      let size : Int := Text.digitsValue digits
      some (if negative then -size else size, rest.dropWhile Text.isDigit)
    else none

/-- The longest numeral at the start of a text: at least one digit on one side of the
point, then an exponent if a complete one follows. -/
def scan? (text : Text) : Option (Numeral × Text) :=
  let (n, rest) := scanPlain text
  if n.whole.isEmpty && n.fraction.isEmpty then none
  else
    match scanExponent? rest with
    | some (exponent, after) => some ({ n with exponent }, after)
    | none => some (n, rest)

/-! ## §2 Numbers that a text starts with -/

/-- The digits of the whole number that a text starts with, and whether it is negative. -/
def leadingInt? (text : Text) : Option (Bool × Text) :=
  let (negative, rest) := scanSign (text.dropWhile Text.isBlank)
  let digits := rest.takeWhile Text.isDigit
  if digits.isEmpty then none else some (negative, digits)

/-- The decimal number that a text starts with; `Infinity` is one too. -/
def leadingFloat? (text : Text) : Option Binary64 :=
  let (negative, rest) := scanSign (text.dropWhile Text.isBlank)
  if ("Infinity" : Text).isPrefixOf rest then some (.infinite negative)
  else (scan? rest).map fun found => found.1.toBinary64 negative

end Numeral

end PrefixCalc
