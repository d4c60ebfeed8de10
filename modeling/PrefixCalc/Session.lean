import PrefixCalc.Token.Reading
import PrefixCalc.Watch

/-!
# Sessions

A session evaluates one text after another. If it is persistent, the constants that a
text defines stay bound for the texts after it, also when the text fails further on;
otherwise every text starts from nothing and leaves nothing behind.
-/

namespace PrefixCalc

/-- Evaluates a text by itself with the builtins of the language. -/
def evaluate (text : Text) : Except Failure Value :=
  (Machine.evaluate .standard {} (Token.read text)).result

/-- The state of a session. -/
structure Session where
  persistent : Bool := true
  registry : Registry := .standard
  env : Environment := {}

namespace Session

/-- The environment in which the next text is evaluated. -/
def start (s : Session) : Environment := if s.persistent then s.env else {}

/-- The session after a text that left the environment `env`. -/
def keep (s : Session) (env : Environment) : Session :=
  if s.persistent then { s with env } else s

/-- Evaluates a text. -/
def eval (s : Session) (text : Text) : Except Failure Value × Session :=
  let outcome := Machine.evaluate s.registry s.start (Token.read text)
  (outcome.result, s.keep outcome.env)

/-- Forgets every constant. -/
def reset (s : Session) : Session := { s with env := {} }

/-! ## §1 Watching -/

/-- Who tells a message: the machine or the session around it. -/
inductive Teller where
  | machine
  | session
  deriving DecidableEq, Repr

/-- The message that tells the value of a text. -/
def summary (text : Text) (value : Value) : Except Limit Text := do
  return text.quoted ++ " => " ++ (← value.logged)

/-- Evaluates a text and tells what happens. A value that cannot be told is a failure, under an
observer who lets the failure to write it escape. -/
def watch (s : Session) (text : Text) :
    Except Failure Value × List (Teller × Text) × Session :=
  let watched := Machine.watch s.registry s.start (Token.read text)
  let told := watched.messages.map (Teller.machine, ·)
  let next := s.keep watched.outcome.env
  match watched.outcome.result with
  | .error failure => (.error failure, told, next)
  | .ok value =>
    match summary text value with
    | .error limit => (.error (.exceeded limit), told, next)
    | .ok message => (.ok value, told ++ [(.session, message)], next)

/-! ## §2 Persistence -/

/-- A session that is not persistent is unchanged by evaluation. -/
theorem eval_snd_of_not_persistent (s : Session) (h : s.persistent = false) (text : Text) :
    (s.eval text).2 = s := by
  simp [eval, keep, h]

/-- Evaluation changes neither the registry nor persistence. -/
theorem eval_registry (s : Session) (text : Text) :
    (s.eval text).2.registry = s.registry := by
  simp only [eval, keep]
  split <;> rfl

end Session

end PrefixCalc
