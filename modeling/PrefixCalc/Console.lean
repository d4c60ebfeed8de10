import PrefixCalc.Session
import PrefixCalc.Settings

/-!
# The console

A conversation by lines: a prompt, a line, the value or the complaint. Two commands
forget the constants and leave the loop. A failure that is no mistake in the expression
is not answered; it ends the conversation.
-/

namespace PrefixCalc

/-- The state of a console. -/
structure Console where
  session : Session
  prompt : Text
  colored : Bool

namespace Console

/-- The command that forgets all constants. -/
def resetCommand : Text := ":reset"

/-- The command that leaves the loop. -/
def quitCommand : Text := ":quit"

/-- The console that the settings ask for. -/
def ofSettings (vars : Variables) (colored : Bool) : Console :=
  { session := { persistent := Settings.persistent vars }
    prompt := Settings.prompt vars
    colored }

/-! ## §1 One line -/

/-- The text that answers an evaluation: mistakes are answered, other failures escape. -/
def answer (colored : Bool) : Except Failure Value → Except Failure Text
  | .ok value => Failure.ofLimit (value.display colored)
  | .error (.refused cause offset) => .ok ((Failure.refused cause offset).display colored)
  | .error failure => .error failure

/-- Takes one line; a blank line has no answer. -/
def respond (c : Console) (line : Text) : Except Failure (Option Text) × Console :=
  let code := Text.trim line
  if code.isEmpty then (.ok none, c)
  else if code = resetCommand then
    (.ok (some "constants cleared"), { c with session := c.session.reset })
  else
    let (result, session) := c.session.eval code
    ((answer c.colored result).map some, { c with session })

/-! ## §2 The loop -/

/-- The lines of a text, each with the line feed that ends it, if there is one. -/
def lines : Text → List Text
  | [] => []
  | c :: rest =>
    if c = '\n' then ['\n'] :: lines rest
    else
      match lines rest with
      | [] => [[c]]
      | first :: others => (c :: first) :: others

/-- What a conversation wrote, and the failure that ended it, if one did. -/
structure Transcript where
  output : Text
  failure : Option Failure

/-- Puts output in front of a transcript. -/
def Transcript.after (written : Text) (later : Transcript) : Transcript :=
  { later with output := written ++ later.output }

/-- What is written before a line is read. -/
def asking (c : Console) : Text := c.prompt ++ " "

/-- What is written after a line. -/
def telling : Option Text → Text
  | none => []
  | some text => text ++ "\n"

/-- Whether a line leaves the loop. -/
def quits (line : Text) : Bool := Text.trim line = quitCommand

/-- Takes lines until one leaves the loop, a failure escapes, or none is left. -/
def converse (c : Console) : List Text → Transcript
  | [] => ⟨c.asking, none⟩
  | line :: rest =>
    if quits line then ⟨c.asking, none⟩
    else
      match c.respond line with
      | (.error failure, _) => ⟨c.asking, some failure⟩
      | (.ok told, next) => (next.converse rest).after (c.asking ++ telling told)

/-- A whole run of the program: colours only on a terminal, and a line feed at the end
unless a failure escaped. -/
def transcript (vars : Variables) (terminal : Bool) (input : Text) : Transcript :=
  let console := ofSettings vars (Settings.color vars && terminal)
  let told := console.converse (lines input)
  match told.failure with
  | some _ => told
  | none => { told with output := told.output ++ "\n" }

end Console

end PrefixCalc
