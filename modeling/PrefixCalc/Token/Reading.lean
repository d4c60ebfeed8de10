import PrefixCalc.Numeral
import PrefixCalc.Token.Basic
import PrefixCalc.Token.Candidate

/-!
# Reading tokens

The tokens of a text: the surviving candidates in the order of their offsets, each with
the lexeme that its kind makes of its characters. Reading never fails; characters that
no kind wants are dropped.
-/

namespace PrefixCalc

/-- The scalar that a digit run denotes: a whole number, or a double if it is too long. -/
def Scalar.ofDigits (digits : Text) : Scalar :=
  if digits.length ≤ Limit.maxDigits then .int (Text.digitsValue digits)
  else .float (Numeral.toBinary64 { whole := digits, fraction := [] } false)

namespace Lexeme

/-- What a kind makes of the characters that it matched. -/
def ofText : TokenKind → Text → Lexeme
  | .literal .string, text => literal .string (.string (text.drop 1).dropLast)
  | .literal .float, text =>
    literal .float (.float ((Numeral.scanPlain text).1.toBinary64 false))
  | .literal .int, text => literal .int (.ofDigits text)
  | .literal .boolean, text => literal .boolean (.boolean (text = "true"))
  | .whitespace, text => whitespace text
  | .openParen, _ => openParen
  | .closeParen, _ => closeParen
  | .openBracket, _ => openBracket
  | .closeBracket, _ => closeBracket
  | .identifier, text => identifier text

theorem kind_ofText (kind : TokenKind) (text : Text) : (ofText kind text).kind = kind := by
  cases kind with
  | literal k => cases k <;> rfl
  | _ => rfl

end Lexeme

/-- The token that a candidate becomes. -/
def Candidate.toToken (c : Candidate) : Token := ⟨.ofText c.kind c.text, c.start⟩

/-- The tokens of a text, reading it with the given kinds in order of precedence. -/
def Token.readWith (kinds : List TokenKind) (text : Text) : List Token :=
  ((Candidate.select kinds text).mergeSort fun a b => a.start ≤ b.start).map Candidate.toToken

/-- The tokens of a text. -/
def Token.read (text : Text) : List Token := Token.readWith TokenKind.precedence text

end PrefixCalc
