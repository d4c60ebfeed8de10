import PrefixCalc.OrderedMap
import PrefixCalc.Value.Written

/-!
# Environments

The constants that definitions have bound, in the order in which their names were first
defined. A name is text; a host may also offer bare text where a name is wanted, which
is then told apart from the name that is spelled the same.
-/

namespace PrefixCalc

/-- The constants bound so far. -/
abbrev Environment := OrderedMap Text Value

namespace Environment

/-- Binds a name, replacing the value it had. -/
def define (env : Environment) (name : Text) (value : Value) : Environment :=
  env.insert name value

/-- The value of a name; a name that is not bound is blamed on `offset`. -/
def lookup (env : Environment) (name : Text) (offset : Option Int) : Except Failure Value :=
  match env.get? name with
  | some value => .ok value
  | none => .error (.refused (.undefinedConstant name) offset)

/-! ## §1 Listing -/

/-- The bindings written one by one, from the first name to the last. -/
def listEntries : List (Text × Value) → Except Limit (List Text)
  | [] => .ok []
  | (name, value) :: rest => do
    let first ← value.logged
    let others ← listEntries rest
    return (name ++ ": " ++ first) :: others

/-- The bindings between braces. -/
def listing (env : Environment) : Except Limit Text := do
  let parts ← listEntries env.entries
  return "\x7b" ++ Text.join ", " parts ++ "\x7d"

/-- The bindings, labelled as an environment. -/
def labelled (env : Environment) : Except Limit Text := do
  return "<Environment " ++ (← env.listing) ++ ">"

/-! ## §2 Keys offered by a host -/

/-- What a host may offer as the name of a constant. -/
inductive Key where
  /-- A name of the language. -/
  | name (name : Text)
  /-- Bare text, which names no constant. -/
  | bare (text : Text)
  deriving DecidableEq, Repr

/-- The spelling of a key. -/
def Key.spelling : Key → Text
  | name text | bare text => text

/-- A name as it is listed among tokens. -/
def symbolText (name : Text) : Text := "Symbol(" ++ name.quoted ++ ")"

/-- Why a key cannot be defined: only names can, so bare text is reported. -/
structure KeyRefusal where
  text : Text
  deriving DecidableEq, Repr

/-- The words that report a key which names no constant. -/
def KeyRefusal.message (refusal : KeyRefusal) : Text :=
  "Cannot define " ++ refusal.text.quoted ++ " as a constant name"

/-- Binds a key that a host offers. -/
def defineKey (env : Environment) (key : Key) (value : Value) :
    Except KeyRefusal Environment :=
  match key with
  | .name name => .ok (env.define name value)
  | .bare text => .error ⟨text⟩

/-- Binds keys in order up to the first one that is refused, if any. -/
def defineKeys (env : Environment) : List (Key × Value) → Environment × Option KeyRefusal
  | [] => (env, none)
  | (key, value) :: rest =>
    match env.defineKey key value with
    | .ok next => next.defineKeys rest
    | .error refusal => (env, some refusal)

/-- The value of a key that a host offers. -/
def lookupKey (env : Environment) (key : Key) (offset : Option Int) : Except Failure Value :=
  match key with
  | .name name => env.lookup name offset
  | .bare text => .error (.refused (.undefinedConstant text) offset)

/-- Whether a key that a host offers is bound. -/
def containsKey (env : Environment) : Key → Bool
  | .name name => env.contains name
  | .bare _ => false

end Environment

end PrefixCalc
