import PrefixCalc.Proofs.Json.Limit
import PrefixCalc.Proofs.Server.Sharing
import PrefixCalc.Proofs.Session.Failure

/-!
# Lines without an answer

A server answers every line but those that go over a limit: while the line is read, at a call in
its code, or when the value of its code is shown. What was sent before does not matter, since the
session of a server stays an ordinary one whatever it is asked.
-/

namespace PrefixCalc

open Text

/-! ## §1 Texts that stop at a call -/

namespace Session

variable {s : Session} {text : Text} {limit : Limit}

/-- A checked call that goes over a limit ends the evaluation. -/
theorem eval_of_ends (ordinary : s.Ordinary) (call : CheckedCall s text)
    (stops : Ends call.builtin call.arguments (.error (.exceeded limit))) :
    (s.eval text).1 = .error (.exceeded limit) := by
  obtain ⟨ends, noValue⟩ := ends_checkedCall ordinary call
  have failed : Machine.invoke call.builtin call.head call.arguments
      = .error (.exceeded limit) := by
    generalize ended : Machine.invoke call.builtin call.head call.arguments = result at ends
    cases stops with
    | range out =>
      cases ends with
      | range => rfl
      | value v inRange | refused cause offset inRange | digits inRange => exact absurd out inRange
    | digits inRange long =>
      cases ends with
      | digits => rfl
      | value v => exact absurd ended (noValue long v)
      | refused cause offset _ short => exact absurd long short
      | range out => exact absurd out inRange
  exact eval_of_checkedCall call (call.applies.step_eq_error failed call.ahead)

/-- A text that neither yields a value nor is refused goes over a limit at a checked call. -/
theorem exists_ends {failure : Failure} (ordinary : s.Ordinary)
    (h : (s.eval text).1 = .error failure) :
    (∃ cause offset, failure = .refused cause offset) ∨
    ∃ limit, failure = .exceeded limit ∧
      ∃ call : CheckedCall s text, Ends call.builtin call.arguments (.error (.exceeded limit)) := by
  rcases exists_checkedCall h with refused | ⟨call, failed⟩
  · exact .inl refused
  · have ends := (ends_checkedCall ordinary call).1
    rw [failed] at ends
    cases ends with
    | refused cause offset => exact .inl ⟨cause, offset, rfl⟩
    | range out => exact .inr ⟨_, rfl, call, .range out⟩
    | digits inRange long => exact .inr ⟨_, rfl, call, .digits inRange long⟩

/-- Of the values of texts only whole numbers are too long to be shown. -/
theorem exists_display_of_eval {v : Value} (ordinary : s.Ordinary)
    (ok : (s.eval text).1 = .ok v) (short : ¬ v.Long) : ∃ shown, v.display false = .ok shown := by
  have kept : shortLiterals.OfValue v := by
    refine .run ?_ ordinary.start (shortLiterals_tokens text) ok
    rw [ordinary.registry]
    exact shortLiterals_builtins
  exact exists_display kept short

end Session

namespace Server

variable {s : Server} {line : List UInt8} {limit : Limit}

/-! ## §2 Servers -/

/-- A server that was asked nothing yet. -/
def fresh (address : Settings.Address) (persistent : Bool) : Server :=
  ⟨address, Session.fresh persistent .standard⟩

private theorem ordinary_handle (ordinary : s.session.Ordinary) (line : List UInt8) :
    (s.handle line).2.session.Ordinary := by
  rw [handle_eq]
  exact Session.performAll_invariant (fun _ call ordinary => ordinary.perform call) ordinary _

private theorem ordinary_handleAll (ordinary : s.session.Ordinary) (lines : List (List UInt8)) :
    (s.handleAll lines).2.session.Ordinary := by
  induction lines generalizing s with
  | nil => exact ordinary
  | cons line lines ih => exact ih (ordinary_handle ordinary line)

/-- A whole number with too many digits by itself has no answer. -/
theorem handle_digits (s : Server) {digits : Text} (all : ∀ c ∈ digits, isDigit c = true)
    (noZero : ∀ c ∈ digits.head?, c ≠ '0') (long : Limit.maxDigits < digits.length) :
    (s.handle (Utf8.ascii digits)).1 = .error (.exceeded (.readDigits digits.length)) := by
  have plain : ∀ c ∈ digits, c.toNat < 0x80 := by
    intro c member
    have := (isDigit_iff c).mp (all c member)
    omega
  have unread := Request.ofLine_eq_error_iff.mpr
    ⟨digits, Utf8.decode_ascii plain, Json.readAll_of_long all noZero long⟩
  rw [handle, unread]

/-! ## §3 The law of answers -/

/-- How a line goes over a limit. -/
inductive Unanswered (s : Server) (line : List UInt8) : Limit → Prop where
  /-- While it is read: it holds a number with too many digits, or it nests too deep. -/
  | read {limit : Limit} (text : Text) (decoded : Utf8.decode line = .ok text)
      (stopped : Json.readAll text = .error (.exceeded limit))
      (exceeds : Json.Exceeds Limit.maxNesting text limit) : Unanswered s line limit
  /-- While its code is evaluated: at a call whose arguments are out of range or too long. -/
  | evaluated {limit : Limit} (code : Text) (asked : Request.ofLine line = .ok (.ok (.eval code)))
      (call : CheckedCall s.session code)
      (stops : Ends call.builtin call.arguments (.error (.exceeded limit))) :
      Unanswered s line limit
  /-- While the value of its code is shown: it is a whole number with too many digits. -/
  | shown (code : Text) (asked : Request.ofLine line = .ok (.ok (.eval code))) (v : Value)
      (value : (s.session.eval code).1 = .ok v) (long : v.Long) :
      Unanswered s line .writtenDigits

private theorem handle_of_unanswered (ordinary : s.session.Ordinary) (h : s.Unanswered line limit) :
    (s.handle line).1 = .error (.exceeded limit) := by
  cases h with
  | read text decoded stopped =>
    rw [handle, Request.ofLine_eq_error_iff.mpr ⟨text, decoded, stopped⟩]
  | evaluated code asked call stops =>
    rw [handle_of_request asked, perform_eval, Session.eval_of_ends ordinary call stops]
    rfl
  | shown code asked v value long =>
    rw [handle_of_request asked, perform_eval, value]
    dsimp only
    rw [Reply.ofResult, display_of_long long]
    rfl

private theorem unanswered_of_ofResult {failure : Failure} {code : Text}
    (ordinary : s.session.Ordinary)
    (asked : Request.ofLine line = .ok (.ok (.eval code)))
    (h : Reply.ofResult (s.session.eval code).1 = .error failure) :
    ∃ limit, failure = .exceeded limit ∧ s.Unanswered line limit := by
  cases ended : (s.session.eval code).1 with
  | ok v =>
    rw [ended, Reply.ofResult] at h
    by_cases long : v.Long
    · rw [display_of_long long] at h
      cases h
      exact ⟨_, rfl, .shown code asked v ended long⟩
    · obtain ⟨shown, written⟩ := Session.exists_display_of_eval ordinary ended long
      rw [written] at h
      cases h
  | error failure' =>
    rw [ended] at h
    rcases Session.exists_ends ordinary ended with ⟨cause, offset, rfl⟩ | ⟨limit, rfl, call, stops⟩
    · cases h
    · cases h
      exact ⟨limit, rfl, .evaluated code asked call stops⟩

private theorem unanswered_of_handle {failure : Failure} (ordinary : s.session.Ordinary)
    (h : (s.handle line).1 = .error failure) :
    ∃ limit, failure = .exceeded limit ∧ s.Unanswered line limit := by
  cases asked : Request.ofLine line with
  | error limit =>
    obtain ⟨text, decoded, stopped⟩ := Request.ofLine_eq_error_iff.mp asked
    rw [handle, asked] at h
    cases h
    exact ⟨limit, rfl, .read text decoded stopped (Json.exceeds_of_readAll stopped)⟩
  | ok read =>
    cases read with
    | error rejection =>
      rw [handle_of_rejected asked] at h
      cases h
    | ok request =>
      rw [handle_of_request asked] at h
      cases request with
      | reset => cases h
      | eval code =>
        rw [perform_eval] at h
        exact unanswered_of_ofResult ordinary asked h

/-- **Which lines have no answer.** Whatever a server was asked before, it answers a line unless
the line goes over a limit, and then it does not, and the failure that escapes is that limit. -/
theorem unanswered_iff (address : Settings.Address) (persistent : Bool)
    (earlier : List (List UInt8)) (line : List UInt8) :
    ((∃ reply, (((fresh address persistent).handleAll earlier).2.handle line).1 = .ok reply) ↔
      ∀ limit, ¬ ((fresh address persistent).handleAll earlier).2.Unanswered line limit) ∧
    ∀ limit, (((fresh address persistent).handleAll earlier).2.handle line).1
        = .error (.exceeded limit) ↔
      ((fresh address persistent).handleAll earlier).2.Unanswered line limit := by
  have ordinary := ordinary_handleAll (s := fresh address persistent)
    (Session.ordinary_fresh persistent) earlier
  -- of what was asked before, only this is left
  generalize ((fresh address persistent).handleAll earlier).2 = s at ordinary
  refine ⟨⟨?_, ?_⟩, fun limit => ⟨?_, handle_of_unanswered ordinary⟩⟩
  · rintro ⟨reply, answered⟩ limit unanswered
    rw [handle_of_unanswered ordinary unanswered] at answered
    cases answered
  · intro none
    cases answered : (s.handle line).1 with
    | ok reply => exact ⟨reply, rfl⟩
    | error failure =>
      obtain ⟨limit, -, unanswered⟩ := unanswered_of_handle ordinary answered
      exact absurd unanswered (none limit)
  · intro escaped
    obtain ⟨limit', same, unanswered⟩ := unanswered_of_handle ordinary escaped
    cases same
    exact unanswered

/-- The line `11…1` of 4301 digits has no answer, not even that it is no request. -/
theorem handle_ones : ((fresh ⟨"127.0.0.1", 8765⟩ true).handle (List.replicate 4301 0x31)).1
    = .error (.exceeded (.readDigits 4301)) := by
  have all : ∀ c ∈ List.replicate 4301 (CodePoint.char '1'), isDigit c = true := by
    intro c member
    rw [List.eq_of_mem_replicate member]
    rfl
  have noZero : ∀ c ∈ (List.replicate 4301 (CodePoint.char '1')).head?, c ≠ '0' := by
    rintro c first rfl
    cases first
  have long : Limit.maxDigits < (List.replicate 4301 (CodePoint.char '1')).length := by
    rw [List.length_replicate]
    decide
  have unanswered := handle_digits (fresh ⟨"127.0.0.1", 8765⟩ true) all noZero long
  rwa [Utf8.ascii, List.map_replicate, List.length_replicate] at unanswered

end Server

end PrefixCalc
