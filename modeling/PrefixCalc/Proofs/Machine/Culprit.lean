import PrefixCalc.Proofs.Machine.Blame
import PrefixCalc.Proofs.Machine.Constants
import PrefixCalc.Proofs.Token.Line
import PrefixCalc.Proofs.Token.Overlap

/-!
# Places of mistakes

A mistake is blamed on a place of the text, except for those of the end of the input. The place
is handed down in three layers: a span of the text becomes a token with the offset of the span, a
function that waits remembers the offset of its name, and a builtin complains of no place at all
and is given that of the name that called it. So where a mistake is about a name, the text goes
on with that name, and where it is about a mark, with a paren or a bracket.
-/

namespace PrefixCalc

open Text

variable {b : Builtin} {arguments : List Value} {cause : Cause} {offset : Option Int}
  {token t : Token} {text : Text} {name : Text}

/-! ## §1 What a mistake is blamed on -/

/-- A builtin of the language complains of arguments that fit its parameters. -/
def Builtin.Raises (b : Builtin) (cause : Cause) : Prop :=
  b ∈ Builtin.standard ∧
    ∃ arguments, Fit b.parameters arguments ∧ b.run arguments = .error (.refused cause none)

namespace Cause

/-- The constant or the function that a mistake is about. -/
def subject? : Cause → Option Text
  | undefinedConstant name | unknownFunction name | tooFewArguments name ..
  | wrongArgument name .. => some name
  | _ => none

/-- The message tells the name. -/
theorem infix_message_of_subject? (h : subject? cause = some name) : name <:+: cause.message := by
  cases cause with
  | undefinedConstant _ =>
    cases h
    exact (List.suffix_append _ name).isInfix
  | unknownFunction _ | tooFewArguments _ _ _ | wrongArgument _ _ _ _ =>
    cases h
    simp [message]
  | _ => cases h

/-- What has to be found at the place that a mistake is blamed on, where `Named name` says that it
is the name and `Marked` that it is a paren or a bracket. -/
def Blames (Named : Text → Prop) (Marked : Prop) (cause : Cause) : Prop :=
  match cause.category with
  | .undefinedConstant | .invalidFunction | .arity | .type =>
    ∃ name, cause.subject? = some name ∧ Named name
  | .cast | .domain => ∃ b : Builtin, b.Raises cause ∧ Named b.name
  | .syntactic => Marked
  | .definition => True

theorem Blames.mono {Named Named' : Text → Prop} {Marked Marked' : Prop}
    (names : ∀ name, Named name → Named' name) (marks : Marked → Marked')
    (h : cause.Blames Named Marked) : cause.Blames Named' Marked' := by
  unfold Blames at h ⊢
  cases category : cause.category with
  | undefinedConstant | invalidFunction | arity | type =>
    rw [category] at h
    obtain ⟨name, subject, named⟩ := h
    exact ⟨name, subject, names name named⟩
  | cast | domain =>
    rw [category] at h
    obtain ⟨b, raises, named⟩ := h
    exact ⟨b, raises, names b.name named⟩
  | syntactic =>
    rw [category] at h
    exact marks h
  | definition => trivial

private theorem Blames.not_ofEnd {Named : Text → Prop} (h : cause.Blames Named False) :
    ¬ cause.OfEnd := by
  rintro ⟨⟩ <;> exact h

end Cause

/-- A token is what a mistake is blamed on, and the mistake is none of the end. -/
structure Token.Culprit (cause : Cause) (t : Token) : Prop where
  notEnd : ¬ cause.OfEnd
  blames : cause.Blames (fun name => t.lexeme = .identifier name)
    (∃ mark : Mark, t.lexeme = mark.lexeme)

/-- The token of a name is blamed for what is about the name. -/
theorem Token.culprit_of_name (lexeme : t.lexeme = .identifier name)
    (h : cause.Blames (fun found => found = name) False) : t.Culprit cause :=
  ⟨h.not_ofEnd, h.mono (fun found same => by rw [lexeme, same]) False.elim⟩

namespace Machine

variable {m next : Machine} {head : Head} {before ahead tokens : List Token}
  {event : Option Event} {registry : Registry}

/-! ## §2 Mistakes of a step -/

/-- A complaint of a builtin is blamed on the name that called it. -/
theorem blames_of_invoke (member : b ∈ Builtin.standard) (fit : Fit b.parameters arguments)
    (h : invoke b head arguments = .error (.refused cause offset)) :
    offset = some head.offset ∧ cause.Blames (fun name => name = b.name) False := by
  unfold invoke at h
  split at h
  · rename_i failure failed
    cases Builtin.falters_of_run member fit failed with
    | exceeded limit => cases h
    | refused raised category =>
      cases h
      have raises : b.Raises cause := ⟨member, arguments, fit, failed⟩
      refine ⟨rfl, ?_⟩
      unfold Cause.Blames
      rcases category with category | category <;> rw [category] <;> exact ⟨b, raises, rfl⟩
  · split at h
    · cases h
    · rename_i failure failed
      obtain ⟨limit, rfl⟩ := exceeded_of_checkWritable failed
      cases h

private theorem blames_of_takeArguments {arity : Nat} {pending : List ParameterKind}
    {taken values : List Value}
    (h : takeArguments head arity pending taken values = .error (.refused cause offset)) :
    offset = some head.offset ∧ cause.Blames (fun name => name = head.name) False := by
  induction pending generalizing taken values with
  | nil => cases h
  | cons expected pending ih =>
    cases values with
    | nil =>
      cases h
      exact ⟨rfl, head.name, rfl, rfl⟩
    | cons v values =>
      rw [takeArguments] at h
      split at h
      · exact ih h
      · cases h
        exact ⟨rfl, head.name, rfl, rfl⟩

/-- A broken definition is blamed on its word or on one of the tokens behind it. -/
theorem exists_blamed_of_definition
    (h : definition token.offset ahead = .error (.refused cause offset)) :
    ∃ t ∈ token :: ahead, offset = some t.offset ∧ t.Culprit cause := by
  unfold definition at h
  split at h
  · rename_i key value close rest
    split at h
    · split at h
      · split at h
        · cases h
        · cases h
          exact ⟨close, by simp, rfl, nofun, trivial⟩
      · cases h
        exact ⟨value, by simp, rfl, nofun, trivial⟩
    · cases h
      exact ⟨key, by simp, rfl, nofun, trivial⟩
  · cases h
    exact ⟨token, by simp, rfl, nofun, trivial⟩

/-- Each function that waits was named by a token, at its offset. -/
def HeadsNamed (before : List Token) (m : Machine) : Prop :=
  ∀ head ∈ m.functions, ∃ t ∈ before, t.lexeme = .identifier head.name ∧ t.offset = head.offset

private theorem headsNamed_of_step (h : m.step registry token ahead = .ok (next, event))
    (named : HeadsNamed before m) : HeadsNamed (before ++ [token]) next := by
  have still : HeadsNamed (before ++ [token]) m := fun head waits => by
    obtain ⟨t, member, lexeme, place⟩ := named head waits
    exact ⟨t, List.mem_append_left _ member, lexeme, place⟩
  cases transition_of_step h with
  | headed name _ _ lexeme =>
    rintro head waits
    rcases List.mem_cons.mp waits with rfl | waits
    · exact ⟨token, by simp, lexeme, rfl⟩
    · exact still head waits
  | applied head functions _ _ _ _ _ _ _ _ pending =>
    refine fun other waits => still other ?_
    rw [pending]
    exact List.mem_cons_of_mem head waits
  | _ => exact still

/-- **Blame of a step**: a mistake is blamed on one of the tokens, the one that is refused, one in
front of it, or one of those that it looks ahead at. -/
theorem exists_blamed_of_step (named : HeadsNamed before m)
    (h : m.step .standard token ahead = .error (.refused cause offset)) :
    ∃ t ∈ before ++ token :: ahead, offset = some t.offset ∧ t.Culprit cause := by
  have here : token ∈ before ++ token :: ahead := by simp
  generalize mistake : Failure.refused cause offset = failure at h
  -- a token is refused itself, or for what it looks ahead at, or for the name that it applies,
  -- which stands in front
  cases failing_of_step h with
  | misplaced found mark _ lexeme category notEnd =>
    cases mistake
    refine ⟨token, here, rfl, notEnd, ?_⟩
    rw [Cause.Blames, category]
    exact ⟨mark, lexeme⟩
  | broken _ _ _ _ form =>
    cases mistake
    obtain ⟨t, member, place, blamed⟩ := exists_blamed_of_definition form
    exact ⟨t, List.mem_append_right before member, place, blamed⟩
  | unbound name _ _ lexeme =>
    cases mistake
    exact ⟨token, here, rfl, Token.culprit_of_name lexeme ⟨name, rfl, rfl⟩⟩
  | unknown head functions _ _ pending =>
    cases mistake
    obtain ⟨t, member, lexeme, place⟩ := named head (by simp [pending])
    exact ⟨t, List.mem_append_left _ member, by rw [place],
      Token.culprit_of_name lexeme ⟨head.name, rfl, rfl⟩⟩
  | unfit _ head functions builtin _ _ pending _ untaken =>
    cases mistake
    obtain ⟨t, member, lexeme, place⟩ := named head (by simp [pending])
    obtain ⟨rfl, blames⟩ := blames_of_takeArguments untaken
    exact ⟨t, List.mem_append_left _ member, by rw [place], Token.culprit_of_name lexeme blames⟩
  | failed _ head builtin arguments applies invoked =>
    cases mistake
    obtain ⟨t, member, lexeme, place⟩ := named head (List.mem_of_mem_head? applies.pending)
    obtain ⟨rest, taken⟩ := applies.taken
    have known := Builtin.mem_of_get?_standard applies.known
    obtain ⟨rfl, blames⟩ := blames_of_invoke known (fit_of_taken taken).2 invoked
    rw [Builtin.name_of_get?_standard applies.known] at blames
    exact ⟨t, List.mem_append_left _ member, by rw [place], Token.culprit_of_name lexeme blames⟩

/-- A run that is refused is blamed on one of its tokens, unless the mistake is one of the end. -/
theorem exists_blamed_of_run (start : HeadsNamed [] m)
    (h : (run .standard m tokens).result = .error (.refused cause offset)) :
    (offset = none ∧ cause.OfEnd) ∨
    ∃ t ∈ tokens, offset = some t.offset ∧ t.Culprit cause := by
  obtain ⟨ahead, last, split, reached, ending⟩ := exists_reaches_accepted .standard m tokens
  rcases ending with ⟨-, ended⟩ | ⟨token, rest, failure, rfl, refused, ended⟩
  · rw [ended] at h
    obtain ⟨found, same, ofEnd⟩ := ofEnd_of_result h
    cases same
    exact .inl ⟨rfl, ofEnd⟩
  · rw [ended] at h
    cases h
    have named := reached.invariant (P := fun before m _ => HeadsNamed before m)
      headsNamed_of_step [] start
    rw [split]
    exact .inr (exists_blamed_of_step named refused)

end Machine

/-! ## §3 Places in the text -/

namespace Candidate

/-- What a kind reads as a name are the characters of the name. -/
theorem Reads.eq_name {kind : TokenKind} {lexeme : Lexeme} (reads : Reads kind text lexeme)
    (same : lexeme = .identifier name) : text = name := by
  cases reads with
  | name run all =>
    cases same
    rfl
  | mark m => cases m <;> cases same
  | _ => cases same

/-- What a kind reads as a mark is the character of the mark. -/
theorem Reads.eq_mark {kind : TokenKind} {lexeme : Lexeme} {mark : Mark}
    (reads : Reads kind text lexeme) (same : lexeme = mark.lexeme) : text = [mark.char] := by
  cases reads with
  | mark m => cases m <;> cases mark <;> first | rfl | cases same
  | _ => cases mark <;> cases same

end Candidate

/-- The text goes on with what a token says at the offset of the token. -/
theorem Token.exists_reads_of_mem_read (h : t ∈ Token.read text) :
    ∃ (start : Nat) (front : Text), t.offset = start ∧ start < text.length ∧
      front <+: text.drop start ∧ Candidate.Reads t.kind front t.lexeme := by
  obtain ⟨before, front, behind, rfl, offset, some, -, reads⟩ := exists_split_of_mem_read h
  have long : 0 < front.length := List.length_pos_iff.mpr some
  refine ⟨before.length, front, offset, ?_, ?_, reads⟩
  · simp only [List.length_append]
    omega
  · rw [List.drop_left]
    exact List.prefix_append front behind

/-- **Places of mistakes.** A mistake is blamed on no place exactly if it is one of the end.
Otherwise the place is that of a token, where the text goes on with the name that the mistake is
about, with that of the builtin that complains, or with a paren or a bracket. The name that a
mistake is about is the one that its message tells. -/
theorem blames_evaluate (env : Environment) (text : Text) (cause : Cause) (offset : Option Int)
    (h : (Machine.evaluate .standard env (Token.read text)).result
      = .error (.refused cause offset)) :
    (offset = none ↔ cause.OfEnd) ∧
    (∀ place, offset = some place → ∃ t ∈ Token.significant (Token.read text), ∃ start : Nat,
      t.offset = place ∧ place = start ∧ start < text.length ∧
      cause.Blames (fun name => t.lexeme = .identifier name ∧ name <+: text.drop start)
        (∃ mark : Mark, t.lexeme = mark.lexeme ∧ [mark.char] <+: text.drop start)) ∧
    ∀ name, cause.subject? = some name → name <:+: cause.message := by
  have told : ∀ name, cause.subject? = some name → name <:+: cause.message :=
    fun name subject => Cause.infix_message_of_subject? subject
  rcases Machine.exists_blamed_of_run (fun _ waits => by cases waits) h with
    ⟨rfl, ofEnd⟩ | ⟨t, member, rfl, culprit⟩
  · exact ⟨⟨fun _ => ofEnd, fun _ => rfl⟩, nofun, told⟩
  · refine ⟨⟨nofun, fun ofEnd => absurd ofEnd culprit.notEnd⟩, fun place same => ?_, told⟩
    cases same
    obtain ⟨start, front, offset, inside, goesOn, reads⟩ :=
      Token.exists_reads_of_mem_read (List.mem_of_mem_filter member)
    refine ⟨t, member, start, rfl, offset, inside, culprit.blames.mono (fun name named => ?_) ?_⟩
    · exact ⟨named, reads.eq_name named ▸ goesOn⟩
    · rintro ⟨mark, marked⟩
      exact ⟨mark, marked, reads.eq_mark marked ▸ goesOn⟩

/-- A text that is no number is blamed on the name of the builtin that reads it, not on that of
the call around it. -/
theorem blames_evaluate_innerCall :
    (Machine.evaluate .standard {} (Token.read "(plus 1 (int \"x\"))")).result
      = .error (.refused (.noInteger "x") (some 9)) ∧
    ∃ t ∈ Token.significant (Token.read "(plus 1 (int \"x\"))"), ∃ start : Nat,
      t.offset = 9 ∧ (9 : Int) = start ∧ start < ("(plus 1 (int \"x\"))" : Text).length ∧
      (Cause.noInteger "x").Blames
        (fun name => t.lexeme = .identifier name ∧
          name <+: ("(plus 1 (int \"x\"))" : Text).drop start)
        (∃ mark : Mark, t.lexeme = mark.lexeme ∧
          [mark.char] <+: ("(plus 1 (int \"x\"))" : Text).drop start) := by
  have tokens : Token.read "(plus 1 (int \"x\"))" = [⟨.openParen, 0⟩, ⟨.identifier "plus", 1⟩,
      ⟨.whitespace " ", 5⟩, ⟨.literal .int (.int 1), 6⟩, ⟨.whitespace " ", 7⟩, ⟨.openParen, 8⟩,
      ⟨.identifier "int", 9⟩, ⟨.whitespace " ", 12⟩, ⟨.literal .string (.string "x"), 13⟩,
      ⟨.closeParen, 16⟩, ⟨.closeParen, 17⟩] := by
    rw [Token.read_eq_onePassFrom]
    decide +kernel
  have failed : (Machine.evaluate .standard {} (Token.read "(plus 1 (int \"x\"))")).result
      = .error (.refused (.noInteger "x") (some 9)) := by
    rw [tokens]
    rfl
  exact ⟨failed, (blames_evaluate {} _ _ _ failed).2.1 9 rfl⟩

end PrefixCalc
