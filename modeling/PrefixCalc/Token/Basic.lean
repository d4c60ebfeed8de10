import PrefixCalc.Environment

/-!
# Tokens

A token is a lexeme at an offset into the text. A literal carries both the kind in
which it is written and the scalar it denotes; the two differ only for a digit run too
long to be a whole number, which is written as one and denotes a double.
-/

namespace PrefixCalc

/-- What a token says. -/
inductive Lexeme where
  | literal (kind : ScalarKind) (value : Scalar)
  | whitespace (blank : Text)
  | openParen
  | closeParen
  | openBracket
  | closeBracket
  | identifier (name : Text)
  deriving DecidableEq

namespace Lexeme

/-- The kind of a lexeme. -/
def kind : Lexeme → TokenKind
  | literal kind _ => .literal kind
  | whitespace _ => .whitespace
  | openParen => .openParen
  | closeParen => .closeParen
  | openBracket => .openBracket
  | closeBracket => .closeBracket
  | identifier _ => .identifier

/-- Whether a lexeme only separates others. -/
def isBlank : Lexeme → Bool
  | whitespace _ => true
  | _ => false

/-- Whether a lexeme denotes a value by itself. -/
def isLiteral : Lexeme → Bool
  | literal .. => true
  | _ => false

/-- What a lexeme carries, as it is listed. -/
def listing : Lexeme → Except Limit Text
  | literal _ value => value.logged
  | whitespace blank => .ok blank.quoted
  | openParen => .ok (Text.quoted "(")
  | closeParen => .ok (Text.quoted ")")
  | openBracket => .ok (Text.quoted "[")
  | closeBracket => .ok (Text.quoted "]")
  | identifier name => .ok (Environment.symbolText name)

end Lexeme

/-- A lexeme and where in the text it starts. A host may hand over tokens with offsets of
its own, which need not be places of any text. -/
structure Token where
  lexeme : Lexeme
  offset : Int
  deriving DecidableEq

namespace Token

/-- The kind of a token. -/
def kind (t : Token) : TokenKind := t.lexeme.kind

/-- The tokens that matter to evaluation. -/
def significant (tokens : List Token) : List Token :=
  tokens.filter fun t => !t.lexeme.isBlank

/-- A token as it is listed. -/
def listing (t : Token) : Except Limit Text := do
  return "Token(" ++ t.kind.name ++ ", " ++ (← t.lexeme.listing)
    ++ ", @" ++ Text.ofInt t.offset ++ ")"

end Token

end PrefixCalc
