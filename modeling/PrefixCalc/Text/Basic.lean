import PrefixCalc.CodePoint

/-!
# Text

Text is a list of code points, so that a position, a length and a cut all count code
points and every definition over text is a recursion on a list. This module holds the
passage from and to strings, the spelling of whole numbers, joining, and the counting
of spans that the scanners share.
-/

namespace PrefixCalc

/-- A text is the list of its code points. -/
abbrev Text := List CodePoint

namespace Text

/-! ## §1 Strings -/

/-- The text of a string. -/
def ofString (s : String) : Text := s.toList.map .char

instance : Coe String Text := ⟨ofString⟩

/-- The string that shows a text. -/
def toString (text : Text) : String := String.ofList (text.map CodePoint.toChar)

/-! ## §2 Whole numbers -/

/-- The decimal digits of a number, most significant first, with no leading zero. -/
def ofNat (n : Nat) : Text := (Nat.toDigits 10 n).map .char

/-- A whole number in decimal; only a negative one carries a sign. -/
def ofInt : Int → Text
  | .ofNat n => ofNat n
  | .negSucc n => '-' :: ofNat (n + 1)

/-- A run of zeros. -/
def zeros (count : Nat) : Text := List.replicate count '0'

/-- The number a run of decimal digits denotes; leading zeros do not count. -/
def digitsValue (digits : Text) : Nat :=
  digits.foldl (fun value digit => 10 * value + (digit.toNat - 48)) 0

/-- The ten decimal digits, which are also the ones `ofNat` writes. -/
def isDigit (c : CodePoint) : Bool := '0' ≤ c && c ≤ '9'

/-- The fifty-two unaccented letters, the only ones a name is made of. -/
def isNameLetter (c : CodePoint) : Bool := ('a' ≤ c && c ≤ 'z') || ('A' ≤ c && c ≤ 'Z')

/-! ## §3 Joining and cutting -/

/-- The parts in order with `separator` between neighbours. -/
def join (separator : Text) (parts : List Text) : Text := List.intercalate separator parts

/-- The parts as they are enumerated in a sentence. -/
def enumerate : List Text → Text
  | [] => []
  | [only] => only
  | [first, last] => first ++ " and " ++ last
  | parts => join ", " parts.dropLast ++ ", and " ++ parts.getLastD []

/-- The text without the characters of class `p` at either end. -/
def strip (p : CodePoint → Bool) (text : Text) : Text :=
  ((text.dropWhile p).reverse.dropWhile p).reverse

/-- How many characters of class `p` stand at the start. -/
def runLength (p : CodePoint → Bool) (text : Text) : Nat := (text.takeWhile p).length

end Text

end PrefixCalc
