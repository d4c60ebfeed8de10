import PrefixCalc.Json.Basic
import PrefixCalc.Numeral
import PrefixCalc.Position

/-!
# Reading JSON

A reader that reports what it wanted and where. Besides the values of the standard it
reads `NaN`, `Infinity` and `-Infinity`; of two members with one name the later value
counts. A fault is located by how many characters are left, which turns into an offset
once the whole text is known.
-/

namespace PrefixCalc.Json

/-! ## §1 Faults -/

/-- What is wrong with a text that should be JSON. -/
inductive Complaint where
  | expectingValue
  | expectingName
  | expectingColon
  | expectingComma
  | extraData
  | unterminatedString
  | controlCharacter
  | invalidEscape
  | invalidUnicodeEscape
  | byteOrderMark
  deriving DecidableEq, Repr

/-- The words of a complaint. -/
def Complaint.words : Complaint → Text
  | expectingValue => "Expecting value"
  | expectingName => "Expecting property name enclosed in double quotes"
  | expectingColon => "Expecting ':' delimiter"
  | expectingComma => "Expecting ',' delimiter"
  | extraData => "Extra data"
  | unterminatedString => "Unterminated string starting at"
  | controlCharacter => "Invalid control character at"
  | invalidEscape => "Invalid \\escape"
  | invalidUnicodeEscape => "Invalid \\uXXXX escape"
  | byteOrderMark => "Unexpected UTF-8 BOM (decode using utf-8-sig)"

/-- Why reading stops. -/
inductive Fault where
  /-- The text is malformed where `left` characters are left. -/
  | malformed (complaint : Complaint) (left : Nat)
  /-- A numeral is too long, or containers nest too deep. -/
  | exceeded (limit : Limit)
  deriving DecidableEq, Repr

/-- A fault of the given kind in front of the characters `rest`. -/
def wrong {α : Type} (complaint : Complaint) (rest : Text) : Except Fault α :=
  .error (.malformed complaint rest.length)

/-! ## §2 Blanks and strings -/

/-- The four characters that may stand between tokens. -/
def isSpace (c : CodePoint) : Bool := c == ' ' || c == '\t' || c == '\n' || c == '\r'

/-- The text behind any spaces. -/
def skipSpace (text : Text) : Text := text.dropWhile isSpace

/-- The value of a hexadecimal digit. -/
def hexDigit? (c : CodePoint) : Option Nat :=
  if '0' ≤ c && c ≤ '9' then some (c.toNat - 48)
  else if 'a' ≤ c && c ≤ 'f' then some (c.toNat - 87)
  else if 'A' ≤ c && c ≤ 'F' then some (c.toNat - 55)
  else none

/-- The number that four hexadecimal digits spell. -/
def hexUnit? (a b c d : CodePoint) : Option Nat := do
  return ((← hexDigit? a) * 16 + (← hexDigit? b)) * 256
    + (← hexDigit? c) * 16 + (← hexDigit? d)

/-- The character that a one-letter escape stands for. -/
def shortEscape? : CodePoint → Option CodePoint
  | .char '"' => some (.char '"')
  | .char '\\' => some (.char '\\')
  | .char '/' => some (.char '/')
  | .char 'b' => some (.char '\x08')
  | .char 'f' => some (.char '\x0c')
  | .char 'n' => some (.char '\n')
  | .char 'r' => some (.char '\r')
  | .char 't' => some (.char '\t')
  | _ => none

/-- The units of a string up to its closing quote, and the text behind it; `opening` is
how many characters were left at the opening quote. -/
def readUnits (opening : Nat) : Text → Except Fault (List Nat × Text)
  | [] => .error (.malformed .unterminatedString opening)
  | .char '"' :: rest => .ok ([], rest)
  | [.char '\\'] => .error (.malformed .unterminatedString opening)
  | .char '\\' :: .char 'u' :: a :: b :: c :: d :: rest =>
    match hexUnit? a b c d with
    | some unit =>
      if rest.isEmpty then wrong .invalidUnicodeEscape (.char 'u' :: a :: b :: c :: d :: rest)
      else do
        let (units, after) ← readUnits opening rest
        return (unit :: units, after)
    | none => wrong .invalidUnicodeEscape (.char 'u' :: a :: b :: c :: d :: rest)
  | .char '\\' :: c :: rest =>
    if c = 'u' then wrong .invalidUnicodeEscape (c :: rest)
    else
      match shortEscape? c with
      | some meant => do
        let (units, after) ← readUnits opening rest
        return (meant.toNat :: units, after)
      | none => wrong .invalidEscape (.char '\\' :: c :: rest)
  | c :: rest =>
    if c < ' ' then wrong .controlCharacter (c :: rest)
    else do
      let (units, after) ← readUnits opening rest
      return (c.toNat :: units, after)

/-- The text of units: two halves of a surrogate pair in a row are one character, and a
half without its partner stays what it is. -/
def ofUnits : List Nat → Text
  | high :: low :: rest =>
    if (0xD800 ≤ high && high < 0xDC00) && (0xDC00 ≤ low && low < 0xE000) then
      .ofNat (0x10000 + (high - 0xD800) * 0x400 + (low - 0xDC00)) :: ofUnits rest
    else .ofNat high :: ofUnits (low :: rest)
  | [unit] => [.ofNat unit]
  | [] => []

/-- A string whose opening quote has been read, and the text behind it. -/
def readString (text : Text) : Except Fault (Text × Text) := do
  let (units, after) ← readUnits (text.length + 1) text
  return (ofUnits units, after)

/-! ## §3 Numbers -/

/-- The digits before the point: a single zero, or digits that do not start with zero. -/
def wholeDigits (text : Text) : Text :=
  match text with
  | .char '0' :: _ => ['0']
  | _ => text.takeWhile Text.isDigit

/-- The fraction behind the whole digits, if it has digits, and the text behind it. -/
def readFraction (text : Text) : Option (Text × Text) :=
  match text with
  | .char '.' :: rest =>
    let digits := rest.takeWhile Text.isDigit
    if digits.isEmpty then none else some (digits, rest.dropWhile Text.isDigit)
  | _ => none

/-- A number at the start of a text: a whole number, unless a fraction or an exponent
follows. -/
def readNumber (text : Text) : Except Fault (Number × Text) :=
  let (negative, body) := match text with
    | .char '-' :: rest => (true, rest)
    | _ => (false, text)
  let whole := wholeDigits body
  if whole.isEmpty then wrong .expectingValue text
  else
    let rest := body.drop whole.length
    let (fraction, behind) := (readFraction rest).getD ([], rest)
    match Numeral.scanExponent? behind with
    | some (exponent, after) =>
      .ok (.float (Numeral.toBinary64 { whole, fraction, exponent } negative), after)
    | none =>
      if fraction.isEmpty then
        if whole.length ≤ Limit.maxDigits then
          let size : Int := Text.digitsValue whole
          .ok (.int (if negative then -size else size), behind)
        else .error (.exceeded (.readDigits whole.length))
      else .ok (.float (Numeral.toBinary64 { whole, fraction } negative), behind)

/-! ## §4 Values -/

/-- The words that stand for values, and the values. -/
def words : List (Text × Json) :=
  [("null", null), ("true", boolean true), ("false", boolean false),
   ("NaN", number (.float .nan)),
   ("Infinity", number (.float (.infinite false))),
   ("-Infinity", number (.float (.infinite true)))]

/-- A word or a number at the start of a text. -/
def readAtom (text : Text) : Except Fault (Json × Text) :=
  match words.find? fun word => word.1.isPrefixOf text with
  | some (word, value) => .ok (value, text.drop word.length)
  | none => do
    let (n, rest) ← readNumber text
    return (number n, rest)

mutual

/-- A value at the start of a text, and the text behind it. At most `room` containers may
lie inside each other. Every call that reads further has less `fuel`; twice the length
of the text is enough. -/
def readValue : (fuel room : Nat) → Text → Except Fault (Json × Text)
  | 0, _, text => wrong .expectingValue text
  | fuel + 1, room, text =>
    match text with
    | .char '"' :: rest => do
      let (content, after) ← readString rest
      return (string content, after)
    | .char '[' :: rest =>
      match room with
      | 0 => .error (.exceeded (.nesting .array))
      | room + 1 =>
        match skipSpace rest with
        | .char ']' :: after => .ok (array [], after)
        | inside => readElements fuel room [] inside
    | .char '\x7b' :: rest =>
      match room with
      | 0 => .error (.exceeded (.nesting .object))
      | room + 1 =>
        match skipSpace rest with
        | .char '\x7d' :: after => .ok (object [], after)
        | inside => readMembers fuel room {} inside
    | atom => readAtom atom

/-- The elements of an array from the next one on; `read` are those before it, the last
one first. -/
def readElements : (fuel room : Nat) → (read : List Json) → Text →
    Except Fault (Json × Text)
  | 0, _, _, text => wrong .expectingValue text
  | fuel + 1, room, read, text => do
    let (element, rest) ← readValue fuel room text
    match skipSpace rest with
    | .char ']' :: after => return (array (element :: read).reverse, after)
    | .char ',' :: after => readElements fuel room (element :: read) (skipSpace after)
    | other => wrong .expectingComma other

/-- The members of an object from the next one on; `read` are those before it. -/
def readMembers : (fuel room : Nat) → (read : OrderedMap Text Json) → Text →
    Except Fault (Json × Text)
  | 0, _, _, text => wrong .expectingName text
  | fuel + 1, room, read, text =>
    match text with
    | .char '"' :: quotedName => do
      let (name, rest) ← readString quotedName
      match skipSpace rest with
      | .char ':' :: behind =>
        let (value, rest) ← readValue fuel room (skipSpace behind)
        match skipSpace rest with
        | .char '\x7d' :: after => return (object (read.insert name value).entries, after)
        | .char ',' :: after => readMembers fuel room (read.insert name value) (skipSpace after)
        | other => wrong .expectingComma other
      | other => wrong .expectingColon other
    | other => wrong .expectingName other

end

/-- The one value that makes up a text. -/
def readAll (text : Text) : Except Fault Json :=
  match text with
  | .char '\uFEFF' :: _ => wrong .byteOrderMark text
  | _ => do
    let (value, rest) ← readValue (2 * text.length + 2) Limit.maxNesting (skipSpace text)
    match skipSpace rest with
    | [] => return value
    | more => wrong .extraData more

/-! ## §5 Reports -/

/-- Why a text is not JSON: the complaint and the offset it is about. -/
structure Malformed where
  complaint : Complaint
  offset : Nat
  line : Nat
  column : Nat
  deriving DecidableEq, Repr

/-- The complaint about a text in front of its last `left` characters; lines and columns
are counted from one. -/
def Malformed.locate (text : Text) (complaint : Complaint) (left : Nat) : Malformed :=
  let offset := text.length - left
  let place := Position.ofOffset text offset
  ⟨complaint, offset, place.line + 1, place.column + 1⟩

/-- The words that report a malformed text. -/
def Malformed.message (m : Malformed) : Text :=
  m.complaint.words ++ ": line " ++ Text.ofNat m.line ++ " column "
    ++ Text.ofNat m.column ++ " (char " ++ Text.ofNat m.offset ++ ")"

end PrefixCalc.Json
