import PrefixCalc.Proofs.Server.Request
import PrefixCalc.Proofs.Session.History

/-!
# One session for many clients

However the lines of several clients interleave, they are answered as one session answers the
calls that they make, in the order in which they arrive. A line that is no request makes no call,
so nobody can tell whether it arrived.
-/

namespace PrefixCalc

/-! ## §1 Rejections -/

/-- A client is told that its line is no request. -/
def Reply.Rejects (reply : Reply) : Prop :=
  ∃ words, reply.field? "error" = some (.text ("Invalid request: " ++ words)) ∨
    reply.field? "error" = some (.text ("Unknown cmd: " ++ words))

/-- A text begins with the character. -/
def Text.Starts (first : Char) (text : Text) : Prop := ∃ rest, text = .char first :: rest

private theorem Text.starts_ofString (first : Char) (rest : List Char) :
    Starts first (ofString (.ofList (first :: rest))) :=
  ⟨rest.map .char, by rw [ofString, String.toList_ofList, List.map_cons]⟩

theorem Text.Starts.append {first : Char} {text : Text} (starts : Starts first text)
    (behind : Text) : Starts first (text ++ behind) := by
  obtain ⟨rest, rfl⟩ := starts
  exact ⟨rest ++ behind, rfl⟩

/-- The words of a mistake do not begin like those of a rejection. -/
theorem Cause.starts_message (cause : Cause) :
    ∃ first, cause.message.Starts first ∧ first ≠ 'I' ∧ first ≠ 'U' := by
  cases cause with
  | callInArray | openInArray | arrayInArray | noArrayToClose | tooManyClosed | noFunction
  | openArray | nothing | definitionCut => exact ⟨'P', Text.starts_ofString .., by decide⟩
  | unbalanced | definitionName | definitionValue | definitionEnd =>
    refine ⟨'P', ?_, by decide⟩
    simp only [message, List.append_assoc]
    exact (Text.starts_ofString 'P' _).append _
  | undefinedConstant | unknownFunction | tooFewArguments | wrongArgument =>
    refine ⟨'E', ?_, by decide⟩
    simp only [message, List.append_assoc]
    exact (Text.starts_ofString 'E' _).append _
  | noInteger | noFloat =>
    refine ⟨'"', ?_, by decide⟩
    simp only [message, List.append_assoc]
    exact (Text.starts_ofString '"' _).append _
  | noLength =>
    refine ⟨'C', ?_, by decide⟩
    simp only [message, List.append_assoc]
    exact (Text.starts_ofString 'C' _).append _

/-- Rejections can be told from everything else by their words. -/
theorem Reply.rejects_iff (reply : Reply) :
    reply.Rejects ↔ ∃ rejection, reply = .rejected rejection := by
  constructor
  · rintro ⟨words, said⟩
    cases reply with
    | rejected rejection => exact ⟨rejection, rfl⟩
    | value shown => rcases said with said | said <;> cases said
    | done => rcases said with said | said <;> cases said
    | mistake cause =>
      obtain ⟨first, ⟨rest, message⟩, noInvalid, noUnknown⟩ := cause.starts_message
      have error : (mistake cause).field? "error" = some (.text (.char first :: rest)) :=
        message ▸ rfl
      rw [error] at said
      rcases said with said | said
      · cases said
        exact absurd rfl noInvalid
      · cases said
        exact absurd rfl noUnknown
  · rintro ⟨rejection, rfl⟩
    cases rejection with
    | encoding m => exact ⟨_, .inl rfl⟩
    | format m => exact ⟨_, .inl rfl⟩
    | noObject => exact ⟨"expected a JSON object", .inl rfl⟩
    | codeNoString => exact ⟨"code must be a string", .inl rfl⟩
    | unknownCommand shown => exact ⟨_, .inr rfl⟩

private theorem Reply.ofResult_ne_rejected (result : Except Failure Value) (rejection : Rejection) :
    ofResult result ≠ .ok (.rejected rejection) := by
  cases result with
  | error failure => cases failure <;> exact nofun
  | ok v =>
    rw [ofResult]
    cases v.display false <;> exact nofun

namespace Server

variable {ι : Type} {s : Server} {line : List UInt8} {client : ι}
  {arrivals before after : List (ι × List UInt8)} {session : Session} {reply : Reply}

/-! ## §2 Calls -/

/-- The call of the session that a request makes. -/
def callOf : Request → Call
  | .eval code => .eval code
  | .reset => .reset

/-- The call of the session that a line makes, if it is a request. -/
def call? (line : List UInt8) : Option Call :=
  match Request.ofLine line with
  | .ok (.ok request) => some (callOf request)
  | _ => none

/-- The calls that lines make, whoever sent them. -/
def calls (arrivals : List (ι × List UInt8)) : List Call :=
  arrivals.filterMap fun arrival => call? arrival.2

/-- What is replied to a line by a session. -/
def replyOf (session : Session) (line : List UInt8) : Except Failure Reply :=
  match Request.ofLine line with
  | .error limit => .error (.exceeded limit)
  | .ok (.error rejection) => .ok (.rejected rejection)
  | .ok (.ok (.eval code)) => Reply.ofResult (session.eval code).1
  | .ok (.ok .reset) => .ok .done

/-- A line is answered by the session of the server and does the call that it makes. -/
theorem handle_eq (s : Server) (line : List UInt8) :
    s.handle line = (replyOf s.session line,
      { s with session := s.session.performAll (call? line).toList }) := by
  unfold handle replyOf call?
  cases Request.ofLine line with
  | error limit => rfl
  | ok read =>
    cases read with
    | error rejection => rfl
    | ok request =>
      cases request with
      | eval code => exact perform_eval s code
      | reset => rfl

/-- Only a line that makes no call is rejected. -/
theorem call?_of_rejects (told : replyOf session line = .ok reply) (rejects : reply.Rejects) :
    call? line = none := by
  obtain ⟨rejection, rfl⟩ := (Reply.rejects_iff reply).mp rejects
  unfold replyOf at told
  unfold call?
  cases read : Request.ofLine line with
  | error limit => rfl
  | ok found =>
    rw [read] at told
    cases found with
    | error rejection => rfl
    | ok request =>
      cases request with
      | reset => cases told
      | eval code => exact absurd told (Reply.ofResult_ne_rejected _ rejection)

private theorem performAll_calls_cons (session : Session) (client : ι) (line : List UInt8)
    (rest : List (ι × List UInt8)) :
    session.performAll (calls ((client, line) :: rest))
      = (session.performAll (call? line).toList).performAll (calls rest) := by
  unfold calls Session.performAll
  cases called : call? line <;> simp [called]

private theorem calls_append_of_rejects (told : replyOf session line = .ok reply)
    (rejects : reply.Rejects) : calls (before ++ [(client, line)]) = calls before := by
  rw [calls, List.filterMap_append, List.filterMap_cons, call?_of_rejects told rejects]
  exact List.append_nil _

/-! ## §3 Arrivals -/

/-- Answers lines in the order in which they arrive, each to the client that sent it. -/
def serve (s : Server) : List (ι × List UInt8) → List (ι × Except Failure Reply) × Server
  | [] => ([], s)
  | (client, line) :: rest =>
    let (reply, next) := s.handle line
    let (replies, last) := next.serve rest
    ((client, reply) :: replies, last)

/-- The first arrival is answered, and the others share the session that it leaves. -/
theorem serve_cons (s : Server) (client : ι) (line : List UInt8)
    (rest : List (ι × List UInt8)) :
    s.serve ((client, line) :: rest)
      = ((client, replyOf s.session line)
          :: (serve { s with session := s.session.performAll (call? line).toList } rest).1,
        (serve { s with session := s.session.performAll (call? line).toList } rest).2) := by
  rw [serve, handle_eq]

private theorem length_serve (s : Server) (arrivals : List (ι × List UInt8)) :
    (s.serve arrivals).1.length = arrivals.length := by
  induction arrivals generalizing s with
  | nil => rfl
  | cons arrival rest ih => rw [serve_cons, List.length_cons, List.length_cons, ih]

private theorem reply_serve (s : Server) (split : arrivals = before ++ (client, line) :: after) :
    (s.serve arrivals).1[before.length]?
      = some (client, replyOf (s.session.performAll (calls before)) line) := by
  subst split
  induction before generalizing s with
  | nil =>
    rw [List.nil_append, serve_cons]
    rfl
  | cons first before ih =>
    rw [List.cons_append, serve_cons, performAll_calls_cons]
    exact ih _

private theorem serve_snd (s : Server) (arrivals : List (ι × List UInt8)) :
    (s.serve arrivals).2 = { s with session := s.session.performAll (calls arrivals) } := by
  induction arrivals generalizing s with
  | nil => rfl
  | cons arrival rest ih => rw [serve_cons, ih, performAll_calls_cons]

/-! ## §4 Lines that are left out -/

/-- What stands at the places that are kept. -/
def keepAt {α : Type} (keep : Nat → Bool) : List α → List α
  | [] => []
  | a :: rest =>
    let later := keepAt (fun i => keep (i + 1)) rest
    if keep 0 then a :: later else later

/-- Every reply that is left out tells a client that its line is no request. -/
def OnlyRejects (keep : Nat → Bool) (replies : List (ι × Except Failure Reply)) : Prop :=
  ∀ i client answer, keep i = false → replies[i]? = some (client, answer) →
    ∃ reply, answer = .ok reply ∧ reply.Rejects

private theorem serve_keepAt (s : Server) {keep : Nat → Bool}
    (rejected : OnlyRejects keep (s.serve arrivals).1) :
    s.serve (keepAt keep arrivals) = (keepAt keep (s.serve arrivals).1, (s.serve arrivals).2) := by
  induction arrivals generalizing s keep with
  | nil => rfl
  | cons arrival rest ih =>
    rw [serve_cons] at rejected ⊢
    generalize next : ({ s with session := s.session.performAll (call? arrival.2).toList } : Server)
      = server at rejected ⊢
    have later := ih server fun i client answer out found =>
      rejected (i + 1) client answer out found
    cases kept : keep 0 with
    | true =>
      simp only [keepAt, kept, if_true]
      rw [serve_cons, next, later]
    | false =>
      obtain ⟨reply, told, rejects⟩ := rejected 0 arrival.1 _ kept rfl
      -- the line makes no call, so the server that it leaves is the one that it found
      rw [call?_of_rejects told rejects] at next
      obtain rfl : s = server := next
      simp only [keepAt, kept, Bool.false_eq_true, if_false]
      exact later

/-! ## §5 The law of sharing -/

/-- The replies to arrivals and the server behind them are those of one session. -/
structure Shares (s : Server) (arrivals : List (ι × List UInt8))
    (replies : List (ι × Except Failure Reply)) (last : Server) : Prop where
  /-- There is one reply for each arrival. -/
  length : replies.length = arrivals.length
  /-- It goes to the client whose line it answers, and it is what the session replies that was
  called by the requests in front of the line, whoever made them. -/
  reply : ∀ before client line after, arrivals = before ++ (client, line) :: after →
    replies[before.length]? = some (client, replyOf (s.session.performAll (calls before)) line)
  /-- All requests have called the session, in the order in which they arrived. -/
  called : last = { s with session := s.session.performAll (calls arrivals) }
  /-- A line that is told to be no request has called nothing. -/
  untouched : ∀ before client line after reply, arrivals = before ++ (client, line) :: after →
    replies[before.length]? = some (client, .ok reply) → reply.Rejects →
      s.session.performAll (calls (before ++ [(client, line)]))
        = s.session.performAll (calls before)
  /-- Such lines can be left out: no other reply changes, and neither does the server. -/
  without : ∀ keep, OnlyRejects keep replies →
    s.serve (keepAt keep arrivals) = (keepAt keep replies, last)

/-- **One session for all.** Whatever the clients send and however their lines interleave, every
line is answered as one session answers it that the requests have called in the order in which
they arrived, and a line that is rejected leaves no trace. -/
theorem shares_serve (s : Server) (arrivals : List (ι × List UInt8)) :
    Shares s arrivals (s.serve arrivals).1 (s.serve arrivals).2 where
  length := length_serve s arrivals
  reply _ _ _ _ split := reply_serve s split
  called := serve_snd s arrivals
  untouched before client line after reply split told rejects := by
    rw [reply_serve s split] at told
    obtain ⟨-, told⟩ := Prod.mk.inj (Option.some.inj told)
    rw [calls_append_of_rejects told rejects]
  without _ rejected := serve_keepAt s rejected

end Server

end PrefixCalc
