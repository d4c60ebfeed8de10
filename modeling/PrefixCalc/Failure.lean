import PrefixCalc.Kind
import PrefixCalc.Limit

/-!
# Failures

Why an evaluation ends without a value. A cause is a mistake in the expression and
knows its own words and its category; a limit and a misused operation lie outside the
language and are never blamed on a place in the text.
-/

namespace PrefixCalc

/-! ## §1 Causes -/

/-- A mistake in an expression. -/
inductive Cause where
  /-- A call is closed inside an array. -/
  | callInArray
  /-- A call is opened inside an array. -/
  | openInArray
  /-- An array is opened inside an array. -/
  | arrayInArray
  /-- An array is closed that was never opened. -/
  | noArrayToClose
  /-- A close paren has no partner. -/
  | tooManyClosed
  /-- A close paren finds no function to apply. -/
  | noFunction
  /-- The input ends inside `depth` calls. -/
  | unbalanced (depth : Int)
  /-- The input ends inside an array. -/
  | openArray
  /-- The input yields no value. -/
  | nothing
  /-- Fewer than three tokens follow `def`. -/
  | definitionCut
  /-- The token after `def` is no name. -/
  | definitionName (found : TokenKind)
  /-- The constant is given something other than a literal. -/
  | definitionValue (name : Text) (found : TokenKind)
  /-- The definition goes on after its literal. -/
  | definitionEnd (name : Text) (found : TokenKind)
  /-- A name stands for a value but none is bound to it. -/
  | undefinedConstant (name : Text)
  /-- A call names no builtin. -/
  | unknownFunction (name : Text)
  /-- Only `given` values are left for the `arity` parameters of a builtin. -/
  | tooFewArguments (name : Text) (arity given : Nat)
  /-- An argument is of a kind that its parameter does not accept. -/
  | wrongArgument (name : Text) (index : Nat) (expected : ParameterKind) (found : ValueKind)
  /-- A text does not start with a whole number of acceptable length. -/
  | noInteger (text : Text)
  /-- A text does not start with a decimal number. -/
  | noFloat (text : Text)
  /-- A value, shown as `text`, has no length. -/
  | noLength (text : Text)
  deriving DecidableEq, Repr

/-- The categories of mistakes that a caller can tell apart. -/
inductive Category where
  | syntactic
  | definition
  | undefinedConstant
  | invalidFunction
  | arity
  | type
  | cast
  | domain
  deriving DecidableEq, Repr

/-- The name under which a category is reported. -/
def Category.name : Category → Text
  | syntactic => "PexprSyntaxError"
  | definition => "PexprDefinitionError"
  | undefinedConstant => "PexprUndefinedConstant"
  | invalidFunction => "PexprInvalidFunction"
  | arity => "PexprArityError"
  | type => "PexprTypeError"
  | cast => "PexprCastError"
  | domain => "PexprDomainError"

namespace Cause

/-- The category of a mistake. -/
def category : Cause → Category
  | callInArray | openInArray | arrayInArray | noArrayToClose | tooManyClosed | noFunction
  | unbalanced _ | openArray | nothing => .syntactic
  | definitionCut | definitionName _ | definitionValue .. | definitionEnd .. => .definition
  | undefinedConstant _ => .undefinedConstant
  | unknownFunction _ => .invalidFunction
  | tooFewArguments .. => .arity
  | wrongArgument .. => .type
  | noInteger _ | noFloat _ => .cast
  | noLength _ => .domain

/-- The words that report a mistake. -/
def message : Cause → Text
  | callInArray => "Parsing error: trying to evaluate an expression in an array"
  | openInArray => "Parsing error: trying to create an expression in an array"
  | arrayInArray => "Parsing error: trying to make an array within an array"
  | noArrayToClose => "Parsing error: trying to close a non-existent array"
  | tooManyClosed => "Parsing error: too many close parenthesis"
  | noFunction => "Parsing error: Cannot evaluate without a function"
  | unbalanced depth =>
    "Parsing error: parenthesis mismatch, depth:" ++ Text.ofInt depth
      ++ ", expected:0"
  | openArray => "Parsing error: unterminated array"
  | nothing => "Parsing error: nothing to evaluate"
  | definitionCut => "Parsing error: def expects (def <identifier> <literal>)"
  | definitionName found =>
    "Parsing error: def expects an identifier to define, found " ++ found.name
  | definitionValue name found =>
    "Parsing error: def expects a literal value for " ++ name
      ++ ", found " ++ found.name
  | definitionEnd name found =>
    "Parsing error: def of " ++ name ++ " takes a single literal, found "
      ++ found.name
  | undefinedConstant name => "Evaluation error: undefined constant " ++ name
  | unknownFunction name =>
    "Evaluation error: " ++ name ++ " is not a valid function"
  | tooFewArguments name arity given =>
    "Evaluation error: " ++ name ++ " expects " ++ Text.ofNat arity
      ++ " arguments, but only got " ++ Text.ofNat given
  | wrongArgument name index expected found =>
    "Evaluation error: " ++ name ++ " expects arg " ++ Text.ofNat index
      ++ " to be a " ++ expected.name ++ " but it is a " ++ found.name
  | noInteger text => "\"" ++ text ++ "\" cannot be cast to an integer."
  | noFloat text => "\"" ++ text ++ "\" cannot be cast to a float."
  | noLength text =>
    "Cannot get length of " ++ text
      ++ " as it is neither a string nor array."

end Cause

/-! ## §2 Misuse -/

/-- The operators of arithmetic. -/
inductive Operator where
  | add
  | subtract
  deriving DecidableEq, Repr

/-- The sign of an operator. -/
def Operator.sign : Operator → Text
  | add => "+"
  | subtract => "-"

/-- How an operation was handed arguments for which it is not defined. The parameters of
the language's own builtins rule this out; those that a host declares need not. -/
inductive Misuse where
  /-- Operands of these kinds have no sum or difference. -/
  | operands (operator : Operator) (left right : ValueKind)
  /-- A string or an array is joined only to another one. -/
  | joined (left right : ValueKind)
  /-- A value other than a string is read as a number. -/
  | noText (found : ValueKind)
  /-- The arguments for the last parameters of an operation are missing. -/
  | missing (operation : Text) (parameters : List Text)
  /-- More arguments are given than an operation takes. -/
  | surplus (operation : Text) (taken given : Nat)
  deriving DecidableEq, Repr

namespace Misuse

/-- A word for one argument or for any other number of them. -/
def argumentWord (count : Nat) : Text :=
  if count = 1 then " positional argument" else " positional arguments"

/-- The words that report a misuse. -/
def message : Misuse → Text
  | operands operator left right =>
    "unsupported operand type(s) for " ++ operator.sign ++ ": '" ++ left.typeName ++ "' and '"
      ++ right.typeName ++ "'"
  | joined left right =>
    "can only concatenate " ++ left.typeName ++ " (not \"" ++ right.typeName ++ "\") to "
      ++ left.typeName
  | noText found => "expected string or bytes-like object, got '" ++ found.typeName ++ "'"
  | missing operation parameters =>
    operation ++ "() missing " ++ Text.ofNat parameters.length ++ " required"
      ++ argumentWord parameters.length ++ ": "
      ++ Text.enumerate (parameters.map fun name => "'" ++ name ++ "'")
  | surplus operation taken given =>
    operation ++ "() takes " ++ Text.ofNat taken ++ argumentWord taken ++ " but "
      ++ Text.ofNat given ++ " were given"

end Misuse

/-! ## §3 Failures -/

/-- Why an evaluation has no value. -/
inductive Failure where
  /-- The expression is mistaken, at the offset if there is one to blame. -/
  | refused (cause : Cause) (offset : Option Int)
  /-- A conversion went over a limit. -/
  | exceeded (limit : Limit)
  /-- An operation was handed arguments for which it is not defined. -/
  | misused (misuse : Misuse)
  deriving DecidableEq, Repr

namespace Failure

/-- The words that report a failure. -/
def message : Failure → Text
  | refused cause _ => cause.message
  | exceeded limit => limit.message
  | misused misuse => misuse.message

/-- Blames a mistake on `offset` unless it is already blamed on a place. -/
def blame (offset : Int) : Failure → Failure
  | refused cause none => refused cause (some offset)
  | other => other

/-- A conversion that may go over a limit, as part of an evaluation. -/
def ofLimit {α : Type} : Except Limit α → Except Failure α
  | .ok a => .ok a
  | .error limit => .error (exceeded limit)

end Failure

end PrefixCalc
