import PrefixCalc.Token.Reading

/-!
# Reading in one pass

A text can be read from left to right without a search for every kind. It falls into
pieces, each cut off by its first character and by what stands right behind it. A piece is
one token or none, or as many tokens as there are truth values in a run of letters.
-/

namespace PrefixCalc

/-! ## §1 Pieces -/

/-- The characters that are a token by themselves. -/
inductive Mark where
  | openParen
  | closeParen
  | openBracket
  | closeBracket
  deriving DecidableEq

namespace Mark

/-- The character of a mark. -/
def char : Mark → CodePoint
  | openParen => '('
  | closeParen => ')'
  | openBracket => '['
  | closeBracket => ']'

/-- The mark of a character, if it is one. -/
def ofChar? (c : CodePoint) : Option Mark :=
  [openParen, closeParen, openBracket, closeBracket].find? (·.char = c)

/-- The kind of the token that a mark is. -/
def kind : Mark → TokenKind
  | openParen => .openParen
  | closeParen => .closeParen
  | openBracket => .openBracket
  | closeBracket => .closeBracket

/-- What a mark says. -/
def lexeme : Mark → Lexeme
  | openParen => .openParen
  | closeParen => .closeParen
  | openBracket => .openBracket
  | closeBracket => .closeBracket

end Mark

/-- What the reader takes at once. -/
inductive Piece where
  /-- Quotes and what stands between them. -/
  | quoted (inside : Text)
  /-- A run of blank characters. -/
  | blank (run : Text)
  /-- A paren or a bracket. -/
  | mark (m : Mark)
  /-- A point with the digits around it. -/
  | decimal (whole fraction : Text)
  /-- A run of digits by itself. -/
  | digits (run : Text)
  /-- A run of letters. -/
  | letters (run : Text)
  /-- A character that means nothing where it stands. -/
  | dropped (c : CodePoint)

namespace Piece

/-- The characters of a piece. -/
def text : Piece → Text
  | quoted inside => .char '"' :: (inside ++ [.char '"'])
  | blank run | digits run | letters run => run
  | mark m => [m.char]
  | decimal whole fraction => whole ++ .char '.' :: fraction
  | dropped c => [c]

/-- The piece that a text starts with, given its first character and the others. -/
def first (c : CodePoint) (rest : Text) : Piece :=
  if c = '"' then
    if .char '"' ∈ rest then quoted (rest.takeWhile (· ≠ .char '"')) else dropped c
  else if Text.isBlank c then blank (c :: rest.takeWhile Text.isBlank)
  else if Text.isDigit c then
    match rest.dropWhile Text.isDigit with
    | .char '.' :: behind =>
      decimal (c :: rest.takeWhile Text.isDigit) (behind.takeWhile Text.isDigit)
    | _ => digits (c :: rest.takeWhile Text.isDigit)
  else if c = '.' then
    if rest.head?.any Text.isDigit then decimal [] (rest.takeWhile Text.isDigit) else dropped c
  else if Text.isNameLetter c then letters (c :: rest.takeWhile Text.isNameLetter)
  else
    match Mark.ofChar? c with
    | some m => mark m
    | none => dropped c

/-! ## §2 Tokens -/

/-- The truth values in a text that stands at `offset`. -/
def truths (offset : Nat) : Text → List Token
  | [] => []
  | c :: rest =>
    if ("true" : Text) <+: c :: rest then
      ⟨.literal .boolean (.boolean true), offset⟩ :: truths (offset + 1) rest
    else if ("false" : Text) <+: c :: rest then
      ⟨.literal .boolean (.boolean false), offset⟩ :: truths (offset + 1) rest
    else truths (offset + 1) rest

/-- The tokens of a piece that stands at `offset`. -/
def tokens (offset : Nat) : Piece → List Token
  | quoted inside => [⟨.literal .string (.string inside), offset⟩]
  | blank run => [⟨.whitespace run, offset⟩]
  | mark m => [⟨m.lexeme, offset⟩]
  | decimal whole fraction =>
    [⟨.literal .float (.float (Numeral.toBinary64 { whole, fraction } false)), offset⟩]
  | digits run => [⟨.literal .int (.ofDigits run), offset⟩]
  | letters run =>
    match truths offset run with
    | [] => [⟨.identifier run, offset⟩]
    | found => found
  | dropped _ => []

end Piece

namespace Token

/-- The tokens from `offset` on, read in one pass, the next `skip` characters being part of a
piece already taken. -/
def onePassFrom : (skip offset : Nat) → Text → List Token
  | _, _, [] => []
  | skip + 1, offset, _ :: rest => onePassFrom skip (offset + 1) rest
  | 0, offset, c :: rest =>
    (Piece.first c rest).tokens offset
      ++ onePassFrom ((Piece.first c rest).text.length - 1) (offset + 1) rest

/-- The tokens of a text, read in one pass. -/
def onePass (text : Text) : List Token := onePassFrom 0 0 text

end Token

end PrefixCalc
