import PrefixCalc.Numeral
import PrefixCalc.OrderedMap
import PrefixCalc.Value.Written

/-!
# Builtins

The operations that calls can name. A builtin states what its parameters accept and
does its work on arguments that were checked against them; what it does with arguments
that its parameters should not have accepted is settled too. A registry maps names to
builtins and remembers their order.
-/

namespace PrefixCalc

/-! ## §1 Operations -/

/-- The whole number that a text starts with. -/
def Cast.toInt (text : Text) : Except Failure Int :=
  match Numeral.leadingInt? text with
  | some (negative, digits) =>
    if digits.length ≤ Limit.maxDigits then
      let size : Int := Text.digitsValue digits
      .ok (if negative then -size else size)
    else .error (.refused (.noInteger text) none)
  | none => .error (.refused (.noInteger text) none)

/-- The double that a text starts with. -/
def Cast.toFloat (text : Text) : Except Failure Binary64 :=
  match Numeral.leadingFloat? text with
  | some x => .ok x
  | none => .error (.refused (.noFloat text) none)

namespace Value

/-- The number of characters of a string or of elements of an array. -/
def length : Value → Except Failure Nat
  | scalar (.string text) => .ok text.length
  | array elements => .ok elements.length
  | other => do
    let shown ← Failure.ofLimit other.text
    .error (.refused (.noLength shown) none)

/-- Whether two values are equal: arrays by their canonical forms, scalars directly, and
an array never equals a scalar. -/
def same : Value → Value → Except Limit Bool
  | array a, array b => do
    let left ← (array a).canonical
    let right ← (array b).canonical
    return left == right
  | scalar a, scalar b => .ok (a.same b)
  | _, _ => .ok false

/-- A value as an operand of arithmetic; truth values count as zero and one. -/
def operand? : Value → Option Number
  | scalar (.boolean b) => some (.int (if b then 1 else 0))
  | scalar s => s.number?
  | array _ => none

/-- An operation of arithmetic on two values. -/
def arithmetic (operator : Operator) (f : Number → Number → Except Limit Number)
    (a b : Value) : Except Failure Value :=
  match a.operand?, b.operand? with
  | some m, some n => (Failure.ofLimit (f m n)).map number
  | _, _ => .error (.misused (.operands operator a.kind b.kind))

/-- The sum of two operands, or two strings or two arrays joined. -/
def add (a b : Value) : Except Failure Value :=
  match a, b with
  | scalar (.string s), scalar (.string t) => .ok (string (s ++ t))
  | array xs, array ys => .ok (array (xs ++ ys))
  | scalar (.string _), _ | array _, _ => .error (.misused (.joined a.kind b.kind))
  | _, _ => arithmetic .add Number.add a b

/-- The difference of two operands. -/
def sub (a b : Value) : Except Failure Value := arithmetic .subtract Number.sub a b

/-- The text that a string is. -/
def asText : Value → Except Failure Text
  | scalar (.string text) => .ok text
  | other => .error (.misused (.noText other.kind))

/-- Whether a condition holds: a number holds unless it is zero, and a string or an array
unless it is empty. -/
def holds : Value → Bool
  | scalar (.boolean b) => b
  | scalar (.int n) => n ≠ 0
  | scalar (.float x) => !x.isInt 0
  | scalar (.string text) => !text.isEmpty
  | array elements => !elements.isEmpty

end Value

/-! ## §2 Builtins -/

/-- An operation that calls can name. -/
structure Builtin where
  name : Text
  parameters : List ParameterKind
  /-- One line of help, possibly empty. -/
  doc : Text
  /-- The work on arguments, which have been checked against the parameters. -/
  run : List Value → Except Failure Value

namespace Builtin

/-- How many arguments a call takes. -/
def arity (b : Builtin) : Nat := b.parameters.length

/-- The name and the parameter kinds in the form of a call. -/
def signature (b : Builtin) : Text :=
  "(" ++ Text.join " " (b.name :: b.parameters.map ParameterKind.name) ++ ")"

/-- The signature, followed by the help if there is any. -/
def help (b : Builtin) : Text :=
  if b.doc.isEmpty then b.signature else b.signature ++ ": " ++ b.doc

/-- The refusal of `given` arguments by an operation whose parameters have these names. -/
def miscounted (operation : Text) (names : List Text) (given : Nat) : Except Failure Value :=
  .error (.misused
    (if given < names.length then .missing operation (names.drop given)
     else .surplus operation names.length given))

/-- The work of an operation on one argument. -/
def onOne (operation name : Text) (f : Value → Except Failure Value) :
    List Value → Except Failure Value
  | [v] => f v
  | arguments => miscounted operation [name] arguments.length

/-- The work of an operation on two arguments. -/
def onTwo (operation : Text) (f : Value → Value → Except Failure Value) :
    List Value → Except Failure Value
  | [v, w] => f v w
  | arguments => miscounted operation ["a", "b"] arguments.length

/-- The builtin that adds two numbers. -/
def plus : Builtin where
  name := "plus"
  parameters := [.number, .number]
  doc := "Add two numbers"
  run := onTwo "plus" Value.add

/-- The builtin that subtracts the second number from the first. -/
def minus : Builtin where
  name := "minus"
  parameters := [.number, .number]
  doc := "Subtract the second number from the first"
  run := onTwo "minus" Value.sub

/-- The builtin that joins two strings. -/
def concat : Builtin where
  name := "concat"
  parameters := [.string, .string]
  doc := "Concatenate two strings"
  run := onTwo "concat" Value.add

/-- The builtin that reads the whole number that a string starts with. -/
def int : Builtin where
  name := "int"
  parameters := [.string]
  doc := "Cast a string to an integer"
  run := onOne "to_int" "text" fun v => do return .int (← Cast.toInt (← v.asText))

/-- The builtin that reads the double that a string starts with. -/
def float : Builtin where
  name := "float"
  parameters := [.string]
  doc := "Cast a string to a float"
  run := onOne "to_float" "text" fun v => do
    return .scalar (.float (← Cast.toFloat (← v.asText)))

/-- The builtin that writes a value as plain text. -/
def string : Builtin where
  name := "string"
  parameters := [.anything]
  doc := "Cast any value to a string"
  run := onOne "to_string" "value" fun v => (Failure.ofLimit v.text).map .string

/-- The builtin that measures a string or an array. -/
def length : Builtin where
  name := "length"
  parameters := [.anything]
  doc := "Length of a string or array"
  run := onOne "length" "value" fun v => v.length.map fun n => .int n

/-- The builtin that compares two values. -/
def equals : Builtin where
  name := "equals"
  parameters := [.anything, .anything]
  doc := "Check two values for equality"
  run := onTwo "is_equal" fun v w => (Failure.ofLimit (v.same w)).map .boolean

/-- The builtin that chooses between two values. -/
def choose : Builtin where
  name := "if"
  parameters := [.boolean, .anything, .anything]
  doc := "First value if the condition holds, else the second"
  run
    | [condition, yes, no] => .ok (if condition.holds then yes else no)
    | arguments => miscounted "if_" ["condition", "then", "otherwise"] arguments.length

/-- The builtins of the language, in the order in which they are listed. -/
def standard : List Builtin :=
  [plus, minus, concat, int, float, string, length, equals, choose]

end Builtin

/-! ## §3 Registries -/

/-- The builtins that an evaluation knows, by name. -/
abbrev Registry := OrderedMap Text Builtin

namespace Registry

/-- The registry of a list of builtins; of two with one name the later one counts. -/
def ofBuiltins (builtins : List Builtin) : Registry :=
  OrderedMap.ofList (builtins.map fun b => (b.name, b))

/-- The registry of the language. -/
def standard : Registry := ofBuiltins Builtin.standard

end Registry

end PrefixCalc
