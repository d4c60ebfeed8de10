import PrefixCalc.Binary64.Arithmetic
import PrefixCalc.Failure

/-!
# Values

A value is a scalar or an array of values. Expressions only build flat arrays, but a
host may hand over nested ones, and every operation here is defined for any depth.
-/

namespace PrefixCalc

/-! ## §1 Scalars -/

/-- A value that a single literal can denote. -/
inductive Scalar where
  | int (n : Int)
  | float (x : Binary64)
  | string (text : Text)
  | boolean (b : Bool)
  deriving DecidableEq

/-- The kind of a scalar. -/
def Scalar.kind : Scalar → ScalarKind
  | int _ => .int
  | float _ => .float
  | string _ => .string
  | boolean _ => .boolean

/-! ## §2 Numbers -/

/-- A whole number or a double. -/
inductive Number where
  | int (n : Int)
  | float (x : Binary64)
  deriving DecidableEq

namespace Number

/-- The scalar that a number is. -/
def toScalar : Number → Scalar
  | int n => .int n
  | float x => .float x

/-- A double that has to be finite. -/
def finiteOnly : Binary64 → Except Limit Binary64
  | .finite x => .ok (.finite x)
  | _ => .error .doubleRange

/-- The double nearest to a whole number, which has to lie within the finite range. -/
def doubleOfInt (n : Int) : Except Limit Binary64 := finiteOnly (Binary64.ofInt n)

/-- Whole numbers combine exactly; as soon as one operand is a double both are. -/
def combine (exact : Int → Int → Int) (rounded : Binary64 → Binary64 → Binary64) :
    Number → Number → Except Limit Number
  | int a, int b => .ok (int (exact a b))
  | float x, float y => .ok (float (rounded x y))
  | int a, float y => do return float (rounded (← doubleOfInt a) y)
  | float x, int b => do return float (rounded x (← doubleOfInt b))

/-- The sum of two numbers. -/
def add : Number → Number → Except Limit Number := combine (· + ·) Binary64.add

/-- The difference of two numbers. -/
def sub : Number → Number → Except Limit Number := combine (· - ·) Binary64.sub

/-- Exact numeric equality, also between a whole number and a double. -/
def same : Number → Number → Bool
  | int a, int b => a == b
  | float x, float y => x.sameNumber y
  | int a, float y => y.isInt a
  | float x, int b => x.isInt b

end Number

namespace Scalar

/-- The number a scalar is, if it is one. -/
def number? : Scalar → Option Number
  | int n => some (.int n)
  | float x => some (.float x)
  | _ => none

/-- Numbers are compared by value, texts and booleans within their kind. -/
def same (a b : Scalar) : Bool :=
  match a.number?, b.number? with
  | some m, some n => m.same n
  | _, _ => a == b

end Scalar

/-! ## §3 Values -/

/-- What an expression evaluates to. -/
inductive Value where
  | scalar (s : Scalar)
  | array (elements : List Value)

namespace Value

/-- The kind of a value. -/
def kind : Value → ValueKind
  | scalar s => .scalar s.kind
  | array _ => .array

/-- Whether arithmetic applies to a value. -/
def isNumber (v : Value) : Bool := v.kind.isNumber

/-- The value that is a whole number. -/
def int (n : Int) : Value := scalar (.int n)

/-- The value that is a text. -/
def string (text : Text) : Value := scalar (.string text)

/-- The value that is a truth value. -/
def boolean (b : Bool) : Value := scalar (.boolean b)

/-- The value that is a number. -/
def number (n : Number) : Value := scalar n.toScalar

end Value

end PrefixCalc
