import PrefixCalc.Position
import PrefixCalc.Text.Letter
import PrefixCalc.Token.Candidate

/-!
# Around the cursor

What stands at a place of a document: the part of the line before it, the word around
it, and the call that is open there. Editors end a line at any line boundary of Unicode,
not only at the line feed.
-/

namespace PrefixCalc.Cursor

/-! ## §1 Lines and words -/

/-- The characters that end a line by themselves. -/
def endsLine (c : CodePoint) : Bool :=
  [0x0A, 0x0B, 0x0C, 0x0D, 0x1C, 0x1D, 0x1E, 0x85, 0x2028, 0x2029].contains c.toNat

/-- Puts a character at the start of the first line. -/
def joinFirst (c : CodePoint) : List Text → List Text
  | [] => [[c]]
  | first :: others => (c :: first) :: others

/-- The lines of a text, each with what ends it; a carriage return and the line feed behind
it end one line together. -/
def lines : Text → List Text
  | [] => []
  | .char '\r' :: .char '\n' :: rest => "\r\n" :: lines rest
  | c :: rest => if endsLine c then [c] :: lines rest else joinFirst c (lines rest)

/-- The part of a line in front of a place, nothing if there is no such line. -/
def lineBefore (text : Text) (p : Position) : Text :=
  match (lines text)[p.line]? with
  | some line => line.take p.column
  | none => []

/-- The word around a place: the letters that touch it on either side. -/
def wordAt? (text : Text) (p : Position) : Option Text :=
  match (lines text)[p.line]? with
  | none => none
  | some line =>
    let before := ((line.take p.column).reverse.takeWhile Text.isLetter).reverse
    let after := (line.drop p.column).takeWhile Text.isLetter
    let word := before ++ after
    if word.isEmpty then none else some word

/-! ## §2 The open call -/

/-- The text behind the last open paren that is not closed: `reversed` is what is still to
be searched, backwards, `closed` how many parens wait for their partner, and `tail` the
text passed over. -/
def tailOfCall? : (reversed : Text) → (closed : Nat) → (tail : Text) → Option Text
  | [], _, _ => none
  | c :: rest, closed, tail =>
    if c = ')' then tailOfCall? rest (closed + 1) (c :: tail)
    else if c = '(' then
      match closed with
      | 0 => some tail
      | fewer + 1 => tailOfCall? rest fewer (c :: tail)
    else tailOfCall? rest closed (c :: tail)

/-- The length of a bracketed stretch at the start of a text: from `opening` over characters
of class `p` to `closing`, zero if there is none. -/
def enclosedLength (opening closing : CodePoint) (p : CodePoint → Bool) : Text → Nat
  | c :: rest =>
    if c = opening then
      match rest.dropWhile p with
      | d :: _ => if d = closing then Text.runLength p rest + 2 else 0
      | [] => 0
    else 0
  | [] => 0

/-- Whether a character can be part of an argument that is one word. -/
def isBare (c : CodePoint) : Bool :=
  !Text.isBlank c && !(("()[]\"" : Text).contains c)

/-- The length of the argument at the start of a text: a string, an array, a call with no
call inside, or a word. -/
def argumentLength : Text → Nat
  | [] => 0
  | c :: rest =>
    if c = '"' then enclosedLength '"' '"' (· ≠ '"') (c :: rest)
    else if c = '[' then enclosedLength '[' ']' (· ≠ ']') (c :: rest)
    else if c = '(' then enclosedLength '(' ')' (fun d => d ≠ '(' && d ≠ ')') (c :: rest)
    else Text.runLength isBare (c :: rest)

/-- The function of the innermost call that is open at the end of a line, and how many
arguments follow its name. -/
def openCall? (line : Text) : Option (Text × Nat) :=
  match tailOfCall? line.reverse 0 [] with
  | none => none
  | some tail =>
    let body := tail.dropWhile Text.isBlank
    let name := body.takeWhile Text.isNameLetter
    if name.isEmpty then none
    else some (name, (Text.scan argumentLength (body.dropWhile Text.isNameLetter)).length)

end PrefixCalc.Cursor
