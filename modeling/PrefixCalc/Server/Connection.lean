import PrefixCalc.Server.Request

/-!
# Connections

A client's bytes arrive in chunks of any size. Each line that is complete is answered
before more is received, blank lines excepted; bytes behind the last line feed wait and
are dropped when the stream ends. A failure that has no reply ends the connection.
-/

namespace PrefixCalc

/-! ## §1 Framing -/

namespace Framing

/-- The byte that ends a line. -/
def lineFeed : UInt8 := 0x0A

/-- The bytes that do not count at either end of a line. -/
def isBlank (byte : UInt8) : Bool := (0x09 ≤ byte && byte ≤ 0x0D) || byte == 0x20

/-- A line without blank bytes at either end. -/
def trim (line : List UInt8) : List UInt8 :=
  ((line.dropWhile isBlank).reverse.dropWhile isBlank).reverse

/-- The complete lines of a stretch of bytes, without their line feeds, and what is left. -/
def split : List UInt8 → List (List UInt8) × List UInt8
  | [] => ([], [])
  | byte :: rest =>
    let (lines, left) := split rest
    if byte = lineFeed then ([] :: lines, left)
    else
      match lines with
      | [] => ([], byte :: left)
      | first :: others => ((byte :: first) :: others, left)

/-- The lines that ask for an answer. -/
def requests (lines : List (List UInt8)) : List (List UInt8) :=
  (lines.map trim).filter fun line => !line.isEmpty

end Framing

/-! ## §2 One connection -/

/-- What a connection has sent, the bytes that wait for their line feed, and the failure
that ended it, if one did. -/
structure Connection where
  waiting : List UInt8 := []
  sent : List Text := []
  failure : Option Failure := none

namespace Connection

/-- Answers lines until one has no reply. -/
def answer (server : Server) (c : Connection) : List (List UInt8) → Server × Connection
  | [] => (server, c)
  | line :: rest =>
    match server.handle line with
    | (.ok reply, next) => answer next { c with sent := c.sent ++ [reply.line] } rest
    | (.error failure, next) => (next, { c with failure := some failure })

/-- Takes a chunk of bytes. -/
def receive (server : Server) (c : Connection) (chunk : List UInt8) : Server × Connection :=
  if c.failure.isSome then (server, c)
  else
    let (lines, waiting) := Framing.split (c.waiting ++ chunk)
    answer server { c with waiting } (Framing.requests lines)

/-- Takes chunks until the stream ends, which an empty chunk says too. -/
def receiveAll (server : Server) (c : Connection) : List (List UInt8) → Server × Connection
  | [] => (server, c)
  | chunk :: rest =>
    if chunk.isEmpty then (server, c)
    else
      let (next, c) := receive server c chunk
      receiveAll next c rest

/-- Serves clients one after another in one session. -/
def serveAll (server : Server) : List (List (List UInt8)) → List Connection
  | [] => []
  | chunks :: rest =>
    let (next, c) := receiveAll server {} chunks
    c :: serveAll next rest

end Connection

end PrefixCalc
