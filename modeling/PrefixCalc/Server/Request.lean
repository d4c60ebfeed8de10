import PrefixCalc.Json.Reader
import PrefixCalc.Session
import PrefixCalc.Settings
import PrefixCalc.Text.Utf8

/-!
# Requests

The server evaluates for many clients in one session. A request is a JSON object on a
line of its own; whatever is wrong with it is answered. Only a limit, met while a request
is read, evaluated or shown, leaves a request without an answer.
-/

namespace PrefixCalc

/-- The state of a server. -/
structure Server where
  address : Settings.Address
  session : Session

/-- The server that the settings ask for. The configured address has to be sound even
where it is overruled. -/
def Server.ofSettings (vars : Variables) (host : Option Text) (port : Option Int) :
    Except Settings.NotInteger Server := do
  let configured ← Settings.address vars
  return {
    address := ⟨host.getD configured.host, port.getD configured.port⟩
    session := { persistent := Settings.persistent vars } }

/-! ## §1 Requests -/

/-- What a client asks for. -/
inductive Request where
  | eval (code : Text)
  | reset
  deriving DecidableEq, Repr

/-- Why a line is no request. -/
inductive Rejection where
  | encoding (m : Utf8.Malformed)
  | format (m : Json.Malformed)
  | noObject
  | codeNoString
  | unknownCommand (shown : Text)
  deriving DecidableEq, Repr

/-- The words that report a rejection. -/
def Rejection.message : Rejection → Text
  | encoding m => "Invalid request: " ++ m.message
  | format m => "Invalid request: " ++ m.message
  | noObject => "Invalid request: expected a JSON object"
  | codeNoString => "Invalid request: code must be a string"
  | unknownCommand shown => "Unknown cmd: " ++ shown

namespace Request

/-- The JSON value of a line. -/
def readLine (line : List UInt8) : Except Limit (Except Rejection Json) :=
  match Utf8.decode line with
  | .error m => .ok (.error (.encoding m))
  | .ok text =>
    match Json.readAll text with
    | .ok json => .ok (.ok json)
    | .error (.malformed complaint left) =>
      .ok (.error (.format (.locate text complaint left)))
    | .error (.exceeded limit) => .error limit

/-- The request that a JSON value makes; without code it evaluates the empty text. -/
def ofJson (json : Json) : Except Rejection Request :=
  match json with
  | .object _ =>
    match json.member? "cmd" with
    | some (.string command) =>
      if command = "eval" then
        match json.member? "code" with
        | none => .ok (eval [])
        | some (.string code) => .ok (eval code)
        | some _ => .error .codeNoString
      else if command = "reset" then .ok reset
      else .error (.unknownCommand command)
    | some other => .error (.unknownCommand other.echo)
    | none => .error (.unknownCommand Json.null.echo)
  | _ => .error .noObject

/-- The request that a line makes. -/
def ofLine (line : List UInt8) : Except Limit (Except Rejection Request) := do
  let read ← readLine line
  return read.bind ofJson

end Request

/-! ## §2 Replies -/

/-- What a client is told. -/
inductive Reply where
  | value (shown : Text)
  | done
  | mistake (cause : Cause)
  | rejected (rejection : Rejection)
  deriving DecidableEq, Repr

namespace Reply

/-- What a field of a reply holds. -/
inductive Field where
  | null
  | flag (b : Bool)
  | text (t : Text)
  deriving DecidableEq, Repr

/-- The fields of a reply in order. -/
def fields : Reply → List (Text × Field)
  | value shown => [("ok", .flag true), ("result", .text shown)]
  | done => [("ok", .flag true), ("result", .null)]
  | mistake cause =>
    [("ok", .flag false), ("error", .text cause.message),
     ("type", .text cause.category.name)]
  | rejected rejection =>
    [("ok", .flag false), ("error", .text rejection.message)]

/-- A field as JSON. -/
def Field.written : Field → Text
  | null => "null"
  | flag b => Scalar.booleanText b
  | text t => Json.quoted t

/-- A reply as a line of JSON. -/
def line (reply : Reply) : Text :=
  let members := reply.fields.map fun field =>
    Json.quoted field.1 ++ ": " ++ field.2.written
  "\x7b" ++ Text.join ", " members ++ "\x7d\n"

end Reply

/-! ## §3 Answering -/

namespace Server

/-- Does what a request asks for. -/
def perform (s : Server) : Request → Except Failure Reply × Server
  | .eval code =>
    let (result, session) := s.session.eval code
    let next := { s with session }
    match result with
    | .ok value => ((Failure.ofLimit (value.display false)).map .value, next)
    | .error (.refused cause _) => (.ok (.mistake cause), next)
    | .error failure => (.error failure, next)
  | .reset => (.ok .done, { s with session := s.session.reset })

/-- Answers one line. -/
def handle (s : Server) (line : List UInt8) : Except Failure Reply × Server :=
  match Request.ofLine line with
  | .error limit => (.error (.exceeded limit), s)
  | .ok (.error rejection) => (.ok (.rejected rejection), s)
  | .ok (.ok request) => s.perform request

/-- A line that is no request leaves the server as it is. -/
theorem handle_of_rejected {s : Server} {line : List UInt8} {rejection : Rejection}
    (h : Request.ofLine line = .ok (.error rejection)) :
    s.handle line = (.ok (.rejected rejection), s) := by
  simp [handle, h]

/-- Answers lines in order. -/
def handleAll (s : Server) : List (List UInt8) → List (Except Failure Reply) × Server
  | [] => ([], s)
  | line :: rest =>
    let (reply, next) := s.handle line
    let (replies, last) := next.handleAll rest
    (reply :: replies, last)

end Server

end PrefixCalc
