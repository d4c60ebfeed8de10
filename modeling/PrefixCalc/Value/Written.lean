import PrefixCalc.Binary64.Layout
import PrefixCalc.Json.Quoted
import PrefixCalc.Value.Basic

/-!
# Written values

The four ways in which a value is written: as plain text, in a log message, on display
and in canonical form. They share one recursion over the value and differ in how a
scalar is written and how the elements of an array are put together. Writing fails
only on a whole number with too many digits.
-/

namespace PrefixCalc

/-! ## §1 One recursion for all forms -/

namespace Value

mutual

/-- A value written with `leaf` for its scalars and `enclose` for its arrays. -/
def write (leaf : Scalar → Except Limit Text) (enclose : List Text → Text) :
    Value → Except Limit Text
  | scalar s => leaf s
  | array elements => (writeAll leaf enclose elements).map enclose

/-- The written elements of an array, from first to last. -/
def writeAll (leaf : Scalar → Except Limit Text) (enclose : List Text → Text) :
    List Value → Except Limit (List Text)
  | [] => .ok []
  | v :: rest => do
    let first ← write leaf enclose v
    let others ← writeAll leaf enclose rest
    return first :: others

end

end Value

/-! ## §2 Scalars -/

namespace Scalar

/-- Doubles are written in their shortest digits, positionally from `0.0001` up to but not
including `10 ^ 16`, and otherwise with an exponent of at least two digits. -/
def doubleLayout : Binary64.Layout := ⟨-4, 16, 2⟩

/-- A truth value in lower case. -/
def booleanText (b : Bool) : Text := if b then "true" else "false"

/-- A scalar as plain text; a string stands for itself. -/
def text : Scalar → Except Limit Text
  | int n => Text.decimal n
  | float x => .ok (doubleLayout.write x)
  | string s => .ok s
  | boolean b => .ok (booleanText b)

/-- A scalar in a log message: strings are quoted and truth values capitalised. -/
def logged : Scalar → Except Limit Text
  | string s => .ok s.quoted
  | boolean b => .ok (if b then "True" else "False")
  | number => number.text

/-- A scalar on display: a string stands between double quotes, unescaped. -/
def shown : Scalar → Except Limit Text
  | string s => .ok ("\"" ++ s ++ "\"")
  | other => other.text

/-- A scalar in canonical form: a double that is a whole number is written as one, so that
equal numbers are written alike. -/
def canonical : Scalar → Except Limit Text
  | int n => Text.decimal n
  | float x =>
    match x, x.toInt? with
    | _, some n => Text.decimal n
    | .nan, none => .ok "NaN"
    | .infinite negative, none =>
      .ok (if negative then "-Infinity" else "Infinity")
    | .finite x, none => .ok (doubleLayout.write (.finite x))
  | string s => .ok (Json.quoted s)
  | boolean b => .ok (booleanText b)

end Scalar

/-! ## §3 Values -/

namespace Value

/-- A value as plain text: elements separated by commas, with no brackets. -/
def text : Value → Except Limit Text := write Scalar.text (Text.join ",")

/-- A value in a log message. -/
def logged : Value → Except Limit Text :=
  write Scalar.logged fun parts => "[" ++ Text.join ", " parts ++ "]"

/-- A value in canonical form. -/
def canonical : Value → Except Limit Text :=
  write Scalar.canonical fun parts => "[" ++ Text.join "," parts ++ "]"

end Value

/-! ## §4 Display -/

/-- The colours of a terminal. -/
inductive Color where
  | red
  | green
  | blue
  | magenta
  deriving DecidableEq, Repr

namespace Color

/-- The number that selects a bright foreground colour. -/
def code : Color → Nat
  | red => 91
  | green => 92
  | blue => 94
  | magenta => 95

/-- The control sequence with a given number. -/
def sequence (code : Nat) : Text := "\x1b[" ++ Text.ofNat code ++ "m"

/-- The text in a colour, followed by a reset. -/
def paint (color : Color) (text : Text) : Text :=
  sequence color.code ++ text ++ sequence 0

/-- The colour of scalars of a kind. -/
def ofKind : ScalarKind → Color
  | .int | .float => blue
  | .string => green
  | .boolean => magenta

end Color

/-- Elements on display, with a blank inside either bracket; with nothing to show between them
the brackets share one. -/
def Value.bracketed (parts : List Text) : Text :=
  let inner := Text.join " " parts
  if inner.isEmpty then "[ ]" else "[ " ++ inner ++ " ]"

/-- A scalar on display, in the colour of its kind if colours are on. -/
def Scalar.display (colored : Bool) (s : Scalar) : Except Limit Text := do
  let plain ← s.shown
  return if colored then (Color.ofKind s.kind).paint plain else plain

/-- A value on display; colours are put around scalars only. -/
def Value.display (colored : Bool) : Value → Except Limit Text :=
  write (Scalar.display colored) bracketed

/-- A complaint on display. -/
def Failure.display (colored : Bool) (failure : Failure) : Text :=
  if colored then Color.red.paint failure.message else failure.message

end PrefixCalc
