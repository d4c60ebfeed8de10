import PrefixCalc.Limit
import PrefixCalc.Text.Blank
import PrefixCalc.Text.DecimalDigit
import PrefixCalc.Text.Quoted

/-!
# Settings

The front ends are configured by variables of the process environment. A variable that
is missing or blank leaves a setting at its default; blanks around a value do not count.
-/

namespace PrefixCalc

/-- The settings that a variable can change. -/
inductive Setting where
  | prompt
  | persist
  | color
  | host
  | port
  | logLevel
  deriving DecidableEq, Repr

/-- The variable that holds a setting. -/
def Setting.variable : Setting → Text
  | prompt => "PEXPR_PROMPT"
  | persist => "PEXPR_PERSIST_ENV"
  | color => "PEXPR_COLOR"
  | host => "PEXPR_REPL_HOST"
  | port => "PEXPR_REPL_PORT"
  | logLevel => "PEXPR_LOG_LEVEL"

/-- The variables that are set. -/
abbrev Variables := Setting → Option Text

namespace Settings

/-! ## §1 Texts and flags -/

/-- The value of a setting, if there is one. -/
def given? (vars : Variables) (setting : Setting) : Option Text :=
  match vars setting with
  | none => none
  | some raw =>
    let value := Text.trim raw
    if value.isEmpty then none else some value

/-- A text, or its default. -/
def text (vars : Variables) (setting : Setting) (default : Text) : Text :=
  (given? vars setting).getD default

/-- An unaccented letter in lower case, any other code point as it is. -/
def lower (c : CodePoint) : CodePoint :=
  if 'A' ≤ c && c ≤ 'Z' then .ofNat (c.toNat + 32) else c

/-- The words that switch a flag on, in lower case. No other character turns into a letter
of these words in lower case, so lowering the unaccented letters is enough. -/
def truthy : List Text := ["1", "true", "yes", "on"]

/-- A flag; any word that does not switch it on switches it off. -/
def flag (vars : Variables) (setting : Setting) (default : Bool) : Bool :=
  match given? vars setting with
  | none => default
  | some value => truthy.contains (value.map lower)

/-! ## §2 Whole numbers -/

/-- The digits of a whole number: decimal digits of any script, single underscores being
allowed between two of them. -/
def groupedDigits? : Text → Option (List Nat)
  | [] => none
  | c :: rest =>
    match Text.decimalDigit? c with
    | none => none
    | some digit =>
      match rest with
      | [] => some [digit]
      | .char '_' :: next => (groupedDigits? next).map (digit :: ·)
      | next => (groupedDigits? next).map (digit :: ·)

/-- The whole number that a text spells: a sign, then digits. -/
def wholeNumber? (text : Text) : Option Int :=
  let (negative, body) := match text with
    | .char '-' :: rest => (true, rest)
    | .char '+' :: rest => (false, rest)
    | rest => (false, rest)
  match groupedDigits? body with
  | none => none
  | some digits =>
    if digits.length ≤ Limit.maxDigits then
      let size : Nat := digits.foldl (fun n digit => 10 * n + digit) 0
      some (if negative then -(size : Int) else size)
    else none

/-- A setting that should be a whole number and is not. -/
structure NotInteger where
  setting : Setting
  value : Text
  deriving DecidableEq, Repr

/-- The words that report a setting which is no whole number. -/
def NotInteger.message (e : NotInteger) : Text :=
  e.setting.variable ++ " must be an integer, got " ++ e.value.quoted

/-- A whole number, or its default. -/
def integer (vars : Variables) (setting : Setting) (default : Int) :
    Except NotInteger Int :=
  match given? vars setting with
  | none => .ok default
  | some value =>
    match wholeNumber? value with
    | some n => .ok n
    | none => .error ⟨setting, value⟩

/-! ## §3 The settings of the front ends -/

/-- What the console writes before it reads a line. -/
def prompt (vars : Variables) : Text := text vars .prompt ">"

/-- Whether definitions stay bound between inputs. -/
def persistent (vars : Variables) : Bool := flag vars .persist true

/-- Whether a terminal gets colours. -/
def color (vars : Variables) : Bool := flag vars .color true

/-- Where the server listens. -/
structure Address where
  host : Text
  port : Int
  deriving DecidableEq, Repr

/-- Where the server listens unless it is told otherwise. -/
def address (vars : Variables) : Except NotInteger Address := do
  let port ← integer vars .port 8765
  return ⟨text vars .host "127.0.0.1", port⟩

/-! ## §4 Logging -/

/-- A letter in upper case. Besides the unaccented letters, the dotless i and the long s
are the only characters whose upper case is an unaccented letter of a level's name. -/
def upper (c : CodePoint) : CodePoint :=
  if 'a' ≤ c && c ≤ 'z' then .ofNat (c.toNat - 32)
  else if c = 'ı' then 'I'
  else if c = 'ſ' then 'S'
  else c

/-- The levels that have a name, from the gravest to the least. -/
def levels : List (Text × Int) :=
  [("CRITICAL", 50), ("FATAL", 50), ("ERROR", 40),
   ("WARNING", 30), ("WARN", 30), ("INFO", 20),
   ("DEBUG", 10), ("NOTSET", 0)]

/-- The level of warnings, which is also that of an unknown name. -/
def warning : Int := 30

/-- The level from which messages are logged. -/
def logLevel (vars : Variables) : Int :=
  match given? vars .logLevel with
  | none => warning
  | some name => (levels.lookup (name.map upper)).getD warning

/-- How messages are logged: the level from which on, the layout of a line, and how many
outputs there are. -/
structure Logging where
  level : Int
  layout : Text
  outputs : Nat
  deriving DecidableEq, Repr

/-- The layout of a logged line. -/
def logLayout : Text := "%(asctime)s %(levelname)s %(name)s: %(message)s"

/-- Sets logging up once: a second call changes nothing. -/
def configure (current : Option Logging) (level : Int) : Logging :=
  current.getD ⟨level, logLayout, 1⟩

end Settings

end PrefixCalc
