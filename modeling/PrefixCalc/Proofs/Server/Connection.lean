import PrefixCalc.Proofs.Server.Framing
import PrefixCalc.Proofs.Text.Characters

/-!
# Connections

What a client is told hangs on the bytes that it sends, not on the chunks in which they arrive:
the requests in the complete lines of the stream are answered in order, up to the first one that
has no reply. Every reply is a line, and the lines that are sent can be told apart.
-/

namespace PrefixCalc

open Framing

/-! ## §1 Replies as lines -/

namespace Reply

/-- A reply without the newline at its end. -/
def body (reply : Reply) : Text :=
  "\x7b" ++ Text.join ", " (reply.fields.map fun field =>
    Json.quoted field.1 ++ ": " ++ field.2.written) ++ "\x7d"

private theorem line_eq_body (reply : Reply) : reply.line = reply.body ++ [.char '\n'] := by
  show _ ++ Text.join ", " _ ++ (("\x7d" : Text) ++ [CodePoint.char '\n']) = _
  rw [← List.append_assoc]
  rfl

private theorem Field.newline_not_mem_written (field : Field) : .char '\n' ∉ field.written := by
  cases field with
  | null => decide
  | flag b => cases b <;> decide
  | text t => exact Json.newline_not_mem_quoted t

private theorem newline_not_mem_body (reply : Reply) : .char '\n' ∉ reply.body := by
  have members : .char '\n' ∉ Text.join ", " (reply.fields.map fun field =>
      Json.quoted field.1 ++ ": " ++ field.2.written) := by
    apply Text.not_mem_join (by decide)
    intro member among
    obtain ⟨⟨name, field⟩, -, rfl⟩ := List.mem_map.mp among
    have colon : .char '\n' ∉ (": " : Text) := by decide
    have key := List.not_mem_append (Json.newline_not_mem_quoted name) colon
    exact List.not_mem_append key field.newline_not_mem_written
  exact List.not_mem_append (List.not_mem_append (by decide) members) (by decide)

/-- The lines of replies are complete, and nothing stands behind them. -/
theorem fallsInto_lines (replies : List Reply) :
    FallsInto (CodePoint.char '\n') (replies.map line).flatten (replies.map body) [] := by
  induction replies with
  | nil => exact .of_not_mem List.not_mem_nil
  | cons reply replies ih =>
    rw [List.map_cons, List.map_cons, List.flatten_cons, line_eq_body, List.append_assoc]
    exact ih.cons reply.newline_not_mem_body

end Reply

/-! ## §2 Answering in order -/

namespace Server

variable {server next last : Server} {requests : List (List UInt8)} {replies : List Reply}
  {failure : Option Failure}

/-- The requests are answered in order up to the first one that has no reply, if there is one;
`failure` is what is met instead of that reply. -/
inductive Answers : Server → List (List UInt8) → List Reply → Option Failure → Server → Prop where
  /-- Every request is answered. -/
  | done (server : Server) : Answers server [] [] none server
  /-- The first request has a reply, and the others are answered after it. -/
  | reply {server next last : Server} {request : List UInt8} {requests : List (List UInt8)}
      {reply : Reply} {replies : List Reply} {failure : Option Failure} :
      server.handle request = (.ok reply, next) → Answers next requests replies failure last →
      Answers server (request :: requests) (reply :: replies) failure last
  /-- The first request has no reply; the others are not handled. -/
  | stop {server last : Server} {request : List UInt8} {requests : List (List UInt8)}
      {failure : Failure} :
      server.handle request = (.error failure, last) →
      Answers server (request :: requests) [] (some failure) last

private theorem exists_answers (server : Server) (requests : List (List UInt8)) :
    ∃ replies failure last, server.Answers requests replies failure last := by
  induction requests generalizing server with
  | nil => exact ⟨[], none, server, .done server⟩
  | cons request requests ih =>
    cases handled : server.handle request with
    | mk result next =>
      cases result with
      | error failure => exact ⟨[], some failure, next, .stop handled⟩
      | ok reply =>
        obtain ⟨replies, failure, last, answers⟩ := ih next
        exact ⟨reply :: replies, failure, last, .reply handled answers⟩

namespace Answers

/-- The requests decide what is answered. -/
theorem unique {replies' : List Reply} {failure' : Option Failure} {last' : Server}
    (first : server.Answers requests replies failure last)
    (second : server.Answers requests replies' failure' last') :
    replies = replies' ∧ failure = failure' ∧ last = last' := by
  induction first generalizing replies' with
  | done => cases second; exact ⟨rfl, rfl, rfl⟩
  | reply handled _ ih =>
    cases second with
    | reply handled' others =>
      cases handled.symm.trans handled'
      obtain ⟨rfl, rfl, rfl⟩ := ih others
      exact ⟨rfl, rfl, rfl⟩
    | stop handled' => cases handled.symm.trans handled'
  | stop handled =>
    cases second with
    | reply handled' _ => cases handled.symm.trans handled'
    | stop handled' =>
      cases handled.symm.trans handled'
      exact ⟨rfl, rfl, rfl⟩

theorem append {back : List (List UInt8)} {replies' : List Reply}
    (first : server.Answers requests replies none next)
    (second : next.Answers back replies' failure last) :
    server.Answers (requests ++ back) (replies ++ replies') failure last := by
  -- the induction is on the first answers, of which none ends in a failure
  generalize ended : none = outcome at first
  induction first with
  | done => exact second
  | reply handled _ ih => exact .reply handled (ih second ended)
  | stop => cases ended

private theorem append_of_stop {failure : Failure} (back : List (List UInt8))
    (stopped : server.Answers requests replies (some failure) last) :
    server.Answers (requests ++ back) replies (some failure) last := by
  generalize ended : some failure = outcome at stopped
  induction stopped with
  | done => cases ended
  | reply handled _ ih => exact .reply handled (ih ended)
  | stop handled => exact .stop handled

/-- The reply at a place is the one to the request at the same place. -/
theorem exists_request (answers : server.Answers requests replies failure last) {i : Nat}
    {reply : Reply} (there : replies[i]? = some reply) :
    ∃ request before after, requests[i]? = some request ∧
      handle before request = (.ok reply, after) := by
  induction answers generalizing i with
  | done => cases there
  | reply handled _ ih =>
    cases i with
    | zero =>
      cases there
      exact ⟨_, _, _, rfl, handled⟩
    | succ i => exact ih there
  | stop => cases there

end Answers

end Server

/-! ## §3 Chunks -/

namespace Connection

open Server

variable {server last : Server} {c : Connection} {requests : List (List UInt8)}
  {replies : List Reply} {failure : Option Failure} {chunks : List (List UInt8)}
  {lines : List (List UInt8)} {rest : List UInt8}

private theorem answer_eq (c : Connection) (running : c.failure = none)
    (answers : server.Answers requests replies failure last) :
    answer server c requests =
      (last, { c with sent := c.sent ++ replies.map Reply.line, failure }) := by
  induction answers generalizing c with
  | done =>
    rw [← running, List.map_nil, List.append_nil]
    rfl
  | reply handled _ ih =>
    rw [answer, handled, List.map_cons]
    refine (ih { c with sent := c.sent ++ [_] } running).trans ?_
    rw [List.append_assoc]
    rfl
  | stop handled =>
    rw [answer, handled, List.map_nil, List.append_nil]

private theorem receive_eq {chunk : List UInt8} (running : c.failure = none)
    (answers :
      server.Answers (Framing.requests (split (c.waiting ++ chunk)).1) replies failure last) :
    receive server c chunk =
      (last, { waiting := (split (c.waiting ++ chunk)).2,
               sent := c.sent ++ replies.map Reply.line, failure }) := by
  have goesOn : ¬ c.failure.isSome = true := by rw [running]; decide
  rw [receive, if_neg goesOn]
  exact answer_eq { c with waiting := _ } running answers

/-- A connection that has ended takes nothing more. -/
theorem receiveAll_of_failure (ended : c.failure.isSome) (chunks : List (List UInt8)) :
    receiveAll server c chunks = (server, c) := by
  induction chunks with
  | nil => rfl
  | cons chunk chunks ih =>
    unfold receiveAll receive
    rw [if_pos ended]
    split
    · rfl
    · exact ih

/-- What is sent for more chunks: the answers to the lines that they complete. -/
theorem receiveAll_eq (c : Connection) (running : c.failure = none)
    (solid : ∀ chunk ∈ chunks, chunk ≠ []) (waits : lineFeed ∉ c.waiting)
    (cut : FallsInto lineFeed (c.waiting ++ chunks.flatten) lines rest)
    (answers : server.Answers (Framing.requests lines) replies failure last) :
    ∃ c', receiveAll server c chunks = (last, c') ∧
      c'.sent = c.sent ++ replies.map Reply.line ∧ c'.failure = failure := by
  -- the bytes that wait stand in front of the stream, so the induction is over all connections
  induction chunks generalizing server c lines replies with
  | nil =>
    rw [List.flatten_nil, List.append_nil] at cut
    obtain ⟨rfl, -⟩ := cut.unique (.of_not_mem waits)
    cases answers
    exact ⟨c, rfl, by rw [List.map_nil, List.append_nil], running⟩
  | cons chunk chunks ih =>
    obtain ⟨here, others⟩ := List.forall_mem_cons.mp solid
    -- the lines of the stream are those that this chunk completes and those after them
    have first := fallsInto_split (c.waiting ++ chunk)
    have second := fallsInto_split ((split (c.waiting ++ chunk)).2 ++ chunks.flatten)
    have whole := first.append second
    rw [List.append_assoc, ← List.flatten_cons] at whole
    obtain ⟨rfl, rfl⟩ := cut.unique whole
    rw [requests_append] at answers
    obtain ⟨now, outcome, next, answered⟩ :=
      exists_answers server (Framing.requests (split (c.waiting ++ chunk)).1)
    have notEmpty : ¬ chunk.isEmpty = true := fun empty => here (List.isEmpty_iff.mp empty)
    rw [receiveAll, if_neg notEmpty, receive_eq running answered]
    dsimp only
    cases outcome with
    | some failed =>
      -- a reply that is missing ends the connection; the other chunks are not read
      obtain ⟨rfl, rfl, rfl⟩ := (answered.append_of_stop _).unique answers
      rw [receiveAll_of_failure rfl]
      exact ⟨_, rfl, rfl, rfl⟩
    | none =>
      -- what is left of this chunk waits for the next one
      obtain ⟨later, outcome, last', answeredLater⟩ := exists_answers next
        (Framing.requests (split ((split (c.waiting ++ chunk)).2 ++ chunks.flatten)).1)
      obtain ⟨rfl, rfl, rfl⟩ := (answered.append answeredLater).unique answers
      obtain ⟨c', received, sent, failed⟩ :=
        ih ⟨_, _, none⟩ rfl others first.unended second answeredLater
      refine ⟨c', received, ?_, failed⟩
      rw [sent, List.map_append, List.append_assoc]

/-- **Chunks do not matter.** The stream alone decides the answers: what is sent, what ended the
connection and the session that remains are the same for every way in which the stream can
arrive. They are those of the requests in its complete lines, in order, up to the first one
without a reply, and what is left behind the last line feed is not handled. Every text that is
sent ends in a newline and holds no other, so a client reads one line for each reply, and the
reply at a place is the one to the request at that place. -/
theorem receiveAll_chunks (server : Server) (stream : List UInt8) :
    ∃ lines rest replies failure last,
      FallsInto lineFeed stream lines rest ∧
      server.Answers (Framing.requests lines) replies failure last ∧
      (∀ chunks : List (List UInt8), (∀ chunk ∈ chunks, chunk ≠ []) → chunks.flatten = stream →
        ∃ c, receiveAll server {} chunks = (last, c) ∧ c.sent = replies.map Reply.line ∧
          c.failure = failure) ∧
      (∀ reply ∈ replies, reply.line = reply.body ++ [.char '\n'] ∧ .char '\n' ∉ reply.body) ∧
      FallsInto (CodePoint.char '\n') (replies.map Reply.line).flatten
        (replies.map Reply.body) [] ∧
      ∀ (i : Nat) (reply : Reply), replies[i]? = some reply →
        ∃ request before after, (Framing.requests lines)[i]? = some request ∧
          Server.handle before request = (.ok reply, after) := by
  have cut := fallsInto_split stream
  obtain ⟨replies, failure, last, answers⟩ :=
    exists_answers server (Framing.requests (split stream).1)
  refine ⟨_, _, replies, failure, last, cut, answers, ?_, ?_, Reply.fallsInto_lines replies,
    fun i reply => answers.exists_request⟩
  · intro chunks solid whole
    subst whole
    obtain ⟨c, received, sent, failed⟩ :=
      receiveAll_eq {} rfl solid List.not_mem_nil cut answers
    exact ⟨c, received, sent, failed⟩
  · intro reply _
    exact ⟨reply.line_eq_body, reply.newline_not_mem_body⟩

/-- A request cut inside a character and in front of its line feed has one answer; the blank line
before it has none, and what stands behind it is no request yet. -/
theorem receiveAll_chunks_cutCharacter :
    let server : Server := { address := ⟨"localhost", 5000⟩, session := {} }
    let chunks : List (List UInt8) :=
      [[13, 10, 123, 34, 99, 109, 100, 34, 58, 32, 34, 195], [169, 34, 125, 13], [10, 123, 34]]
    (∀ chunk ∈ chunks, chunk ≠ []) ∧ ∃ c, receiveAll server {} chunks = (server, c) ∧
      c.sent = ["\x7b\"ok\": false, \"error\": \"Unknown cmd: \\u00e9\"\x7d\n"] ∧
      c.failure = none := by
  intro server chunks
  have solid : ∀ chunk ∈ chunks, chunk ≠ [] := by decide
  obtain ⟨lines, rest, replies, failure, last, -, -, arrives, -⟩ :=
    receiveAll_chunks server chunks.flatten
  -- the stream in one chunk is answered the same way
  obtain ⟨c, cut, sent, failed⟩ := arrives chunks solid rfl
  obtain ⟨c', whole, sent', failed'⟩ := arrives [chunks.flatten] (by decide) rfl
  obtain ⟨rfl, rfl⟩ : server = last ∧ _ = c' := Prod.mk.inj whole
  exact ⟨solid, c, cut, sent.trans sent'.symm, failed.trans failed'.symm⟩

end Connection

end PrefixCalc
