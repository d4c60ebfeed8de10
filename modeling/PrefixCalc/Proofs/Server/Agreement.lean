import Mathlib.Data.List.Forall2
import PrefixCalc.Console
import PrefixCalc.Proofs.Machine.Place
import PrefixCalc.Proofs.Server.Request
import PrefixCalc.Proofs.Token.Trim

/-!
# Console and server

A console trims a line before it evaluates it, a server takes the code of a request as it is.
They agree all the same: trimming changes the places of the tokens and nothing else, and what
either of them tells does not name a place.
-/

namespace PrefixCalc

open Text

/-! ## §1 Trimmed texts -/

namespace Session

/-- **A session does not see blanks at the ends of a text**: they change neither what a text does
to it nor how the text ends, except for the place that a mistake is blamed on. -/
theorem eval_trim (s : Session) (text : Text) :
    (s.eval (trim text)).1.mapError Failure.unplaced
      = (s.eval text).1.mapError Failure.unplaced ∧
    (s.eval (trim text)).2 = (s.eval text).2 := by
  have same : (Machine.evaluate s.registry s.start (Token.read text)).unplaced
      = (Machine.evaluate s.registry s.start (Token.read (trim text))).unplaced :=
    Machine.evaluate_congr (Token.lexemes_trim text)
  have result := congrArg Machine.Outcome.result same.symm
  have env := congrArg Machine.Outcome.env same.symm
  exact ⟨result, congrArg s.keep env⟩

end Session

/-! ## §2 What is told -/

/-- Takes lines one after another, also behind one that has no answer. -/
def Console.respondAll (c : Console) : List Text → List (Except Failure (Option Text)) × Console
  | [] => ([], c)
  | line :: rest =>
    let (told, next) := c.respond line
    let (others, last) := next.respondAll rest
    (told :: others, last)

/-- A line on a console and a request to a server end alike: the same text is told, or the same
failure escapes. -/
inductive Agree : Except Failure (Option Text) → Except Failure Reply → Prop where
  | told (text : Text) (reply : Reply) (same : reply.told = some (.text text)) :
      Agree (.ok (some text)) (.ok reply)
  | escaped (failure : Failure) : Agree (.error failure) (.error failure)

variable {c : Console} {s : Server} {code : Text} {line : List UInt8}

/-! ## §3 One line -/

/-- Endings that differ at most in the place that is blamed are told alike. -/
theorem agree_answer {result result' : Except Failure Value}
    (same : result.mapError Failure.unplaced = result'.mapError Failure.unplaced) :
    Agree ((Console.answer false result).map some) (Reply.ofResult result') := by
  cases result with
  | ok v =>
    cases result' with
    | error failure => cases same
    | ok v' =>
      obtain rfl := Except.ok.inj same
      rw [Console.answer, Reply.ofResult]
      cases v.display false with
      | ok shown => exact .told shown (.value shown) rfl
      | error limit => exact .escaped (.exceeded limit)
  | error failure =>
    cases result' with
    | ok v' => cases same
    | error failure' =>
      have mistake := Except.error.inj same
      -- only a refusal knows a place
      cases failure <;> cases failure' <;> cases mistake
      · exact .told _ _ rfl
      · exact .escaped _
      · exact .escaped _

/-- The lines that a console evaluates. -/
def Console.Asks (code : Text) : Prop := trim code ≠ [] ∧ trim code ≠ resetCommand

instance (code : Text) : Decidable (Console.Asks code) :=
  inferInstanceAs (Decidable (_ ∧ _))

private theorem Console.respond_eq (asks : Asks code) :
    c.respond code = ((answer c.colored (c.session.eval (trim code)).1).map some,
      { c with session := (c.session.eval (trim code)).2 }) := by
  have some : (trim code).isEmpty = false := List.isEmpty_eq_false_iff.mpr asks.1
  rw [respond, some, if_neg Bool.false_ne_true, if_neg asks.2]

/-- **One line.** A line on a console and a request that carries the same text end alike and leave
sessions that are still the same. -/
theorem agree_respond (plain : c.colored = false) (same : c.session = s.session)
    (asks : Console.Asks code) (carried : Request.ofLine line = .ok (.ok (.eval code))) :
    Agree (c.respond code).1 (s.handle line).1 ∧
    (c.respond code).2.session = (s.handle line).2.session ∧
    (c.respond code).2.colored = false := by
  obtain ⟨result, next⟩ := s.session.eval_trim code
  rw [Console.respond_eq asks, Server.handle_of_request carried, Server.perform_eval, plain, same]
  exact ⟨agree_answer result, next, rfl⟩

/-! ## §4 Conversations -/

variable {codes : List Text} {lines : List (List UInt8)}

/-- Each line is a request to evaluate the code beside it, blanks at its ends included. -/
def Carries (codes : List Text) (lines : List (List UInt8)) : Prop :=
  List.Forall₂ (fun code line => Request.ofLine line = .ok (.ok (.eval code))) codes lines

private theorem agree_respondAll_last (plain : c.colored = false) (same : c.session = s.session)
    (asks : ∀ code ∈ codes, Console.Asks code) (carried : Carries codes lines) :
    List.Forall₂ Agree (c.respondAll codes).1 (s.handleAll lines).1 ∧
    (c.respondAll codes).2.session = (s.handleAll lines).2.session := by
  induction carried generalizing c s with
  | nil => exact ⟨.nil, same⟩
  | cons first carried ih =>
    obtain ⟨ask, asks⟩ := List.forall_mem_cons.mp asks
    obtain ⟨agree, same, plain⟩ := agree_respond plain same ask first
    obtain ⟨others, last⟩ := ih plain same asks
    exact ⟨.cons agree others, last⟩

/-- **Console and server agree.** Take a console without colours and a server whose sessions are
the same, and any codes, none of them blank or the reset command. Line by line the console tells
what the replies to the requests with these codes tell, a failure escapes from both or from
neither, and the sessions stay the same throughout. -/
theorem agree_respondAll (plain : c.colored = false) (same : c.session = s.session)
    (asks : ∀ code ∈ codes, Console.Asks code) (carried : Carries codes lines) :
    List.Forall₂ Agree (c.respondAll codes).1 (s.handleAll lines).1 ∧
    ∀ k, (c.respondAll (codes.take k)).2.session = (s.handleAll (lines.take k)).2.session := by
  refine ⟨(agree_respondAll_last plain same asks carried).1, fun k => ?_⟩
  have front : ∀ code ∈ codes.take k, Console.Asks code := fun code member =>
    asks code (List.mem_of_mem_take member)
  exact (agree_respondAll_last plain same front (List.forall₂_take k carried)).2

/-- A definition between blanks, a use of it in front of an open string that ends with a blank,
and a call that is never closed. -/
def openString : List Text := [" (def x 5)\n", "\tx \" ", "(plus x "]

/-- The requests that carry the codes. -/
def openStringLines : List (List UInt8) := openString.map fun code => (Request.eval code).line

theorem agree_respondAll_openString :
    ((∀ code ∈ openString, Console.Asks code) ∧ Carries openString openStringLines) ∧
    List.Forall₂ Agree ((Console.mk {} ">" false).respondAll openString).1
      ((Server.mk ⟨"localhost", 8765⟩ {}).handleAll openStringLines).1 ∧
    ∀ k, ((Console.mk {} ">" false).respondAll (openString.take k)).2.session
      = ((Server.mk ⟨"localhost", 8765⟩ {}).handleAll (openStringLines.take k)).2.session := by
  have asks : ∀ code ∈ openString, Console.Asks code := by decide
  have unpaired : ∀ code ∈ openString, Json.Unpaired code := by decide
  have carried : Carries openString openStringLines :=
    List.forall₂_map_right_iff.mpr (List.forall₂_same.mpr fun code member =>
      @Request.ofLine_line (.eval code) (unpaired code member))
  exact ⟨⟨asks, carried⟩, agree_respondAll rfl rfl asks carried⟩

end PrefixCalc
