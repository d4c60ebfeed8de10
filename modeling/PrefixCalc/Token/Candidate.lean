import PrefixCalc.Kind
import PrefixCalc.Text.Blank
import PrefixCalc.Text.Scan

/-!
# Candidates for tokens

Each token kind reads the whole text on its own: from left to right it takes the match
at the current position, if there is one, and goes on behind it. Kinds that read the
same characters differently are reconciled later.
-/

namespace PrefixCalc

/-! ## §1 Matches at a position -/

namespace TokenKind

/-- Whether a character may stand between the quotes of a string. -/
def isQuotable (c : CodePoint) : Bool := c ≠ '"'

/-- The length of a quoted string at the start of a text: everything up to the next quote. -/
def stringLength : Text → Nat
  | .char '"' :: rest =>
    if (rest.dropWhile isQuotable).isEmpty then 0 else Text.runLength isQuotable rest + 2
  | _ => 0

/-- One for the given character, zero for any other. -/
def charLength (c : CodePoint) : Text → Nat
  | d :: _ => if d = c then 1 else 0
  | [] => 0

/-- The length of a decimal at the start of a text: digits and a point, with at least one
digit on one of its sides. -/
def decimalLength (text : Text) : Nat :=
  let whole := Text.runLength Text.isDigit text
  match text.drop whole with
  | .char '.' :: rest =>
    let fraction := Text.runLength Text.isDigit rest
    if whole = 0 && fraction = 0 then 0 else whole + 1 + fraction
  | _ => 0

/-- The length of a truth value at the start of a text, whatever follows it. -/
def booleanLength (text : Text) : Nat :=
  if ("true" : Text).isPrefixOf text then 4
  else if ("false" : Text).isPrefixOf text then 5
  else 0

/-- The length of the match of a kind at the start of a text, zero if there is none. -/
def matchLength : TokenKind → Text → Nat
  | literal .string => stringLength
  | whitespace => Text.runLength Text.isBlank
  | openParen => charLength '('
  | closeParen => charLength ')'
  | openBracket => charLength '['
  | closeBracket => charLength ']'
  | literal .float => decimalLength
  | literal .int => Text.runLength Text.isDigit
  | literal .boolean => booleanLength
  | identifier => Text.runLength Text.isNameLetter

end TokenKind

/-! ## §2 Matches in a text -/

/-- A stretch of the text that a kind reads as one token. -/
structure Candidate where
  kind : TokenKind
  start : Nat
  text : Text
  deriving DecidableEq, Repr

namespace Candidate

/-- The offset just behind the stretch. -/
def stop (c : Candidate) : Nat := c.start + c.text.length

/-- Whether two stretches share a character. -/
def overlaps (a b : Candidate) : Bool := a.start < b.stop && b.start < a.stop

/-- All matches of one kind in a text, from left to right. -/
def ofKind (kind : TokenKind) (text : Text) : List Candidate :=
  (Text.scan kind.matchLength text).map fun found => ⟨kind, found.1, found.2⟩

/-- The candidates of one kind that overlap none of those kept before. -/
def keepApart (kept new : List Candidate) : List Candidate :=
  kept ++ new.filter fun c => !kept.any c.overlaps

/-- The candidates that survive when the kinds take their turns in the given order. -/
def select (kinds : List TokenKind) (text : Text) : List Candidate :=
  kinds.foldl (fun kept kind => keepApart kept (ofKind kind text)) []

end Candidate

end PrefixCalc
