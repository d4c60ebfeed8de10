import PrefixCalc.Console

/-!
# The console program

Talks to a person on the standard streams: the settings come from the process
environment, and colours are used only if the output is a terminal.
-/

namespace PrefixCalc.Console

/-- The variables that are set in the environment of the process. -/
def readVariables : IO Variables := do
  let read (setting : Setting) : IO (Option Text) := do
    return (← IO.getEnv (Text.toString setting.variable)).map Text.ofString
  let prompt ← read .prompt
  let persist ← read .persist
  let color ← read .color
  let host ← read .host
  let port ← read .port
  let logLevel ← read .logLevel
  return fun
    | .prompt => prompt
    | .persist => persist
    | .color => color
    | .host => host
    | .port => port
    | .logLevel => logLevel

/-- Reads lines and answers them until the loop is left; returns the failure that ended
it, if one did. -/
partial def talk (input output : IO.FS.Stream) (c : Console) : IO (Option Failure) := do
  output.putStr (Text.toString c.asking)
  output.flush
  let line := Text.ofString (← input.getLine)
  if line.isEmpty || quits line then return none
  match c.respond line with
  | (.error failure, _) => return some failure
  | (.ok told, next) =>
    output.putStr (Text.toString (telling told))
    talk input output next

end PrefixCalc.Console

open PrefixCalc in
/-- Runs the console; the exit code tells whether a failure ended it. -/
def main : IO UInt32 := do
  let input ← IO.getStdin
  let output ← IO.getStdout
  let vars ← Console.readVariables
  let colored := Settings.color vars && (← output.isTty)
  match ← Console.talk input output (.ofSettings vars colored) with
  | none =>
    output.putStr "\n"
    return 0
  | some failure =>
    (← IO.getStderr).putStrLn (Text.toString failure.message)
    return 1
