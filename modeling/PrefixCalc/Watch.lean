import PrefixCalc.Machine

/-!
# Watching an evaluation

An observer hears of every definition and call as it happens, in words. Telling can
fail, since the result of a call need not be writable; a watched evaluation then ends
at that point, whereas an unwatched one goes on. This supposes an observer who lets the
failure to write a message escape. One who reports it and goes on, as handlers of a log
do unless they are told otherwise, leaves the evaluation as it is unwatched.
-/

namespace PrefixCalc

/-- The words that tell of an event. -/
def Event.message : Event → Except Limit Text
  | defined name value => do
    return "def " ++ name ++ " = " ++ (← value.logged)
  | applied name arguments result => do
    let written ← Value.writeAll Scalar.logged
      (fun parts => "[" ++ Text.join ", " parts ++ "]") arguments
    return "(" ++ name ++ " " ++ Text.join " " written ++ ") => "
      ++ (← result.logged)

namespace Machine

/-- What is told at the end of the input: nothing, unless it succeeds with values left over. -/
def closing (m : Machine) : List Text :=
  match m.result with
  | .error _ => []
  | .ok _ =>
    if m.values.length ≤ 1 then []
    else
      [Text.ofNat m.values.length
        ++ " values left on the stack, returning the last"]

/-- The outcome of a watched evaluation and the messages told, in order. -/
structure Watched where
  outcome : Outcome
  messages : List Text

/-- Puts messages in front of what is told later. -/
def Watched.after (told : List Text) (later : Watched) : Watched :=
  { later with messages := told ++ later.messages }

/-- Tells one event, if there is one. -/
def tell : Option Event → Except Limit (List Text)
  | none => .ok []
  | some event => event.message.map ([·])

/-- Runs the machine over the remaining tokens and tells every event. -/
def watchFrom (registry : Registry) (m : Machine) : List Token → Watched
  | [] => ⟨⟨m.result, m.env⟩, m.closing⟩
  | token :: ahead =>
    match m.step registry token ahead with
    | .error failure => ⟨⟨.error failure, m.env⟩, []⟩
    | .ok (next, event) =>
      match tell event with
      | .error limit => ⟨⟨.error (.exceeded limit), next.env⟩, []⟩
      | .ok told => (next.watchFrom registry ahead).after told

/-- Evaluates tokens in an environment and tells every event. -/
def watch (registry : Registry) (env : Environment) (tokens : List Token) : Watched :=
  watchFrom registry { env } (Token.significant tokens)

end Machine

end PrefixCalc
