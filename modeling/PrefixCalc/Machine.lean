import PrefixCalc.Builtin
import PrefixCalc.Token.Basic

/-!
# The evaluating machine

Reading and evaluating are one pass over the tokens. The machine keeps a stack of the
functions whose calls are open and a stack of values; a close paren applies the newest
function to the newest values. No tree is built, so all arguments are evaluated before
a call, and a malformed input is evaluated up to the token at which it goes wrong.

One token is one `step`. A definition is recognised at its first token by looking at
the three that follow, which are then passed over.
-/

namespace PrefixCalc

/-! ## §1 State -/

/-- The word that opens a definition. -/
def definitionWord : Text := "def"

/-- A function name that waits for its close paren, and where it stands. -/
structure Head where
  name : Text
  offset : Int
  deriving DecidableEq, Repr

/-- What the machine remembers between two tokens. The newest entry of a stack is first. -/
structure Machine where
  /-- The constants defined so far. -/
  env : Environment
  /-- How many calls are open. -/
  depth : Int := 0
  /-- The functions that wait to be applied. -/
  functions : List Head := []
  /-- The values that wait to be used. -/
  values : List Value := []
  /-- Whether the next name is that of a function. -/
  expecting : Bool := false
  /-- Whether an array is being read. -/
  building : Bool := false
  /-- The elements of that array so far, newest first. -/
  buffer : List Scalar := []
  /-- How many tokens of a recognised definition are still to be passed over. -/
  passing : Nat := 0

/-- What a step may tell an observer. -/
inductive Event where
  /-- A constant was bound. -/
  | defined (name : Text) (value : Scalar)
  /-- A builtin was applied. -/
  | applied (name : Text) (arguments : List Value) (result : Value)

namespace Machine

/-! ## §2 Definitions -/

/-- The name and the value of the definition whose `def` stands at `offset`, given the
tokens after it: a name, a literal and a close paren. -/
def definition (offset : Int) : List Token → Except Failure (Text × Scalar)
  | key :: value :: close :: _ =>
    match key.lexeme with
    | .identifier name =>
      match value.lexeme with
      | .literal _ s =>
        match close.lexeme with
        | .closeParen => .ok (name, s)
        | other => .error (.refused (.definitionEnd name other.kind) (some close.offset))
      | other => .error (.refused (.definitionValue name other.kind) (some value.offset))
    | other => .error (.refused (.definitionName other.kind) (some key.offset))
  | _ => .error (.refused .definitionCut (some offset))

/-- Binds a constant. The definition counts as a value, closes its own call, and its
three remaining tokens are passed over. -/
def define (m : Machine) (name : Text) (value : Scalar) : Machine :=
  { m with
    env := m.env.define name (.scalar value)
    depth := m.depth - 1
    values := .scalar value :: m.values
    expecting := false
    passing := 3 }

/-! ## §3 Calls -/

/-- The arguments of a call, taken from the newest value backwards and checked on the way:
`pending` are the parameters still to be filled, the last one first, and `taken` the
arguments found, in order. Returns them with the values that are left. -/
def takeArguments (head : Head) (arity : Nat) :
    (pending : List ParameterKind) → (taken values : List Value) →
      Except Failure (List Value × List Value)
  | [], taken, values => .ok (taken, values)
  | _ :: _, taken, [] =>
    .error (.refused (.tooFewArguments head.name arity taken.length) (some head.offset))
  | expected :: pending, taken, v :: values =>
    if expected.accepts v.kind then takeArguments head arity pending (v :: taken) values
    else
      .error (.refused (.wrongArgument head.name pending.length expected v.kind)
        (some head.offset))

/-- Refuses arguments that cannot be written, whether or not their text is wanted. -/
def checkWritable : List Value → Except Failure Unit
  | [] => .ok ()
  | v :: rest =>
    match v.logged with
    | .ok _ => checkWritable rest
    | .error limit => .error (.exceeded limit)

/-- Runs a builtin on its arguments; a complaint of the builtin is blamed on the name that
called it, and the arguments have to be writable. -/
def invoke (b : Builtin) (head : Head) (arguments : List Value) : Except Failure Value :=
  match b.run arguments with
  | .error failure => .error (failure.blame head.offset)
  | .ok result =>
    match checkWritable arguments with
    | .ok () => .ok result
    | .error failure => .error failure

/-- Applies the newest function to the newest values; `offset` is that of the close paren. -/
def reduce (registry : Registry) (m : Machine) (offset : Int) :
    Except Failure (Machine × Event) :=
  match m.functions with
  | [] => .error (.refused .noFunction (some offset))
  | head :: functions =>
    match registry.get? head.name with
    | none => .error (.refused (.unknownFunction head.name) (some head.offset))
    | some b => do
      let (arguments, values) ←
        takeArguments head b.arity b.parameters.reverse [] m.values
      let result ← invoke b head arguments
      return ({ m with functions, values := result :: values },
        .applied head.name arguments result)

/-! ## §4 One token -/

/-- A name where a function is expected: a definition or the head of a call. -/
def takeHead (m : Machine) (name : Text) (offset : Int) (ahead : List Token) :
    Except Failure (Machine × Option Event) :=
  if name = definitionWord then do
    let (key, value) ← definition offset ahead
    return (m.define key value, some (.defined key value))
  else
    .ok ({ m with expecting := false, functions := ⟨name, offset⟩ :: m.functions }, none)

/-- A literal is an element of the open array if there is one, else a value; where a
function is expected it is dropped. -/
def takeLiteral (m : Machine) (value : Scalar) : Machine :=
  if m.expecting then m
  else if m.building then { m with buffer := value :: m.buffer }
  else { m with values := .scalar value :: m.values }

/-- Closes the innermost call. -/
def closeCall (registry : Registry) (m : Machine) (offset : Int) :
    Except Failure (Machine × Option Event) :=
  if m.building then .error (.refused .callInArray (some offset))
  else if m.depth - 1 < 0 then .error (.refused .tooManyClosed (some offset))
  else do
    let (next, event) ←
      reduce registry { m with depth := m.depth - 1, expecting := false } offset
    return (next, some event)

/-- Closes the open array and makes it a value; the next one starts without elements. -/
def closeArray (m : Machine) (offset : Int) : Except Failure Machine :=
  if m.building then
    let value := Value.array (m.buffer.reverse.map .scalar)
    .ok { m with values := value :: m.values, building := false, buffer := [] }
  else .error (.refused .noArrayToClose (some offset))

/-- The effect of a token, given the tokens after it. -/
def step (registry : Registry) (m : Machine) (token : Token) (ahead : List Token) :
    Except Failure (Machine × Option Event) :=
  match m.passing with
  | left + 1 => .ok ({ m with passing := left }, none)
  | 0 =>
    match token.lexeme with
    | .whitespace _ => .ok (m, none)
    | .identifier name =>
      if m.expecting then m.takeHead name token.offset ahead
      else do
        let value ← m.env.lookup name (some token.offset)
        return ({ m with values := value :: m.values }, none)
    | .literal _ value => .ok (m.takeLiteral value, none)
    | .openParen =>
      if m.building then .error (.refused .openInArray (some token.offset))
      else .ok ({ m with depth := m.depth + 1, expecting := true }, none)
    | .closeParen => closeCall registry m token.offset
    | .openBracket =>
      if m.building then .error (.refused .arrayInArray (some token.offset))
      else .ok ({ m with building := true }, none)
    | .closeBracket => do return (← m.closeArray token.offset, none)

/-- The value at the end of the input: the last one, if all calls and arrays are closed. -/
def result (m : Machine) : Except Failure Value :=
  if m.depth ≠ 0 then .error (.refused (.unbalanced m.depth) none)
  else if m.building then .error (.refused .openArray none)
  else
    match m.values with
    | [] => .error (.refused .nothing none)
    | last :: _ => .ok last

/-! ## §5 All tokens -/

/-- How an evaluation ends: a value or a failure, and the environment either way. -/
structure Outcome where
  result : Except Failure Value
  env : Environment

/-- Runs the machine over the remaining tokens. -/
def run (registry : Registry) (m : Machine) : List Token → Outcome
  | [] => ⟨m.result, m.env⟩
  | token :: ahead =>
    match m.step registry token ahead with
    | .error failure => ⟨.error failure, m.env⟩
    | .ok (next, _) => next.run registry ahead

/-- Evaluates tokens in an environment; tokens of white space do not count. -/
def evaluate (registry : Registry) (env : Environment) (tokens : List Token) : Outcome :=
  run registry { env } (Token.significant tokens)

end Machine

end PrefixCalc
