import Mathlib.Data.List.Induction
import PrefixCalc.Proofs.Machine.Nesting

/-!
# Brackets among parens

No call is opened or closed by itself while an array is read, so a pair of brackets holds
no parens, with one exception. A definition closes its own call when its first token is
met, and a function name that was due in front of an open bracket is still due behind it:
if the first name inside the brackets opens a definition, then the close paren of that
definition stands between them. It is the only one.
-/

namespace PrefixCalc

namespace Token

/-- The first name among the tokens is the word that opens a definition. -/
def DefinitionFirst (tokens : List Token) : Prop :=
  (tokens.find? isName).map Token.lexeme = some (.identifier definitionWord)

private theorem not_definitionFirst_nil : ¬ DefinitionFirst [] := by
  simp [DefinitionFirst]

private theorem definitionFirst_cons_of_isName {t : Token} (h : t.isName = true)
    (rest : List Token) :
    DefinitionFirst (t :: rest) ↔ t.lexeme = .identifier definitionWord := by
  simp [DefinitionFirst, h]

private theorem definitionFirst_cons_of_not_isName {t : Token} (h : t.isName = false)
    (rest : List Token) : DefinitionFirst (t :: rest) ↔ DefinitionFirst rest := by
  simp [DefinitionFirst, h]

/-! ## §1 White space -/

private theorem definitionFirst_significant (tokens : List Token) :
    DefinitionFirst (significant tokens) ↔ DefinitionFirst tokens := by
  induction tokens with
  | nil => rfl
  | cons t rest ih =>
    cases blank : t.lexeme.isBlank with
    | true =>
      have notName : t.isName = false := by
        cases lexeme : t.lexeme <;> simp_all [Lexeme.isBlank, isName]
      rw [definitionFirst_cons_of_not_isName notName, ← ih]
      simp [significant, blank]
    | false =>
      have kept : significant (t :: rest) = t :: significant rest := by
        simp [significant, blank]
      rw [kept]
      cases isName : t.isName with
      | true => rw [definitionFirst_cons_of_isName isName, definitionFirst_cons_of_isName isName]
      | false =>
        rw [definitionFirst_cons_of_not_isName isName,
          definitionFirst_cons_of_not_isName isName, ih]

private theorem functionDue_significant (tokens : List Token) :
    FunctionDue (significant tokens) ↔ FunctionDue tokens := by
  induction tokens using List.reverseRecOn with
  | nil => rfl
  | append_singleton front t ih =>
    cases blank : t.lexeme.isBlank with
    | true =>
      have plain : t.lexeme ≠ .openParen ∧ t.isParen = false ∧ t.isName = false := by
        cases lexeme : t.lexeme <;> simp_all [Lexeme.isBlank, isParen, isName]
      have dropped : significant (front ++ [t]) = significant front := by
        simp [significant, blank]
      rw [dropped, functionDue_append_singleton, ih]
      simp [plain]
    | false =>
      have kept : significant (front ++ [t]) = significant front ++ [t] := by
        simp [significant, blank]
      rw [kept, functionDue_append_singleton, functionDue_append_singleton, ih]

end Token

namespace Machine

open Token

variable {registry : Registry} {m next last : Machine} {token closing : Token}
  {inside after : List Token} {event : Option Event} {value : Value}

/-! ## §2 Inside brackets -/

/-- Inside brackets no paren is accepted while no function is expected. -/
theorem parens_eq_nil_of_not_expecting
    (h : (run registry m (inside ++ closing :: after)).result = .ok value)
    (noClose : ∀ t ∈ inside, t.lexeme ≠ .closeBracket) (passing : m.passing = 0)
    (building : m.building = true) (notExpecting : m.expecting = false) :
    parens inside = [] := by
  induction inside generalizing m with
  | nil => rfl
  | cons t rest ih =>
    obtain ⟨next, event, accepted, later⟩ := exists_step_of_run_eq_ok h
    have noClose' : ∀ u ∈ rest, u.lexeme ≠ .closeBracket := fun u hu => noClose u (by simp [hu])
    cases transition_of_step accepted with
    | passed left positive => simp [positive] at passing
    | defined _ _ _ expecting | headed _ _ expecting | dropped _ _ _ expecting =>
      simp [notExpecting] at expecting
    | shifted _ _ _ _ _ outside | opened _ _ outside | applied _ _ _ _ _ _ _ _ outside
    | arrayOpened _ _ outside =>
      simp [outside] at building
    | arrayClosed _ lexeme => exact absurd lexeme (noClose t (by simp))
    | blank _ _ lexeme | referred _ _ _ _ lexeme | collected _ _ _ _ lexeme =>
      rw [parens_cons_of_not_isParen (by simp [isParen, lexeme])]
      exact ih later noClose' passing building notExpecting

/-- A token that is not in front of a cut lies behind it. -/
theorem exists_append_of_not_mem {front back : List Token} (h : closing ∉ front)
    (split : inside ++ closing :: after = front ++ back) :
    ∃ rest, inside = front ++ rest ∧ back = rest ++ closing :: after := by
  rcases List.append_eq_append_iff.mp split with ⟨between, rfl, order⟩ | ⟨rest, rfl, order⟩
  · cases between with
    | nil => exact ⟨[], by simp, order.symm⟩
    | cons first between =>
      obtain ⟨rfl, -⟩ := List.cons.inj order
      simp at h
  · exact ⟨rest, rfl, order⟩

/-- Inside brackets in function position the close paren of a definition is accepted, if the
first name opens one, and no other paren. -/
theorem parens_of_expecting
    (h : (run registry m (inside ++ closing :: after)).result = .ok value)
    (closeLexeme : closing.lexeme = .closeBracket)
    (noClose : ∀ t ∈ inside, t.lexeme ≠ .closeBracket) (passing : m.passing = 0)
    (building : m.building = true) (expecting : m.expecting = true) :
    (DefinitionFirst inside → parens inside = [.closeParen]) ∧
    (¬ DefinitionFirst inside → parens inside = []) := by
  induction inside generalizing m with
  | nil => exact ⟨fun first => absurd first not_definitionFirst_nil, fun _ => rfl⟩
  | cons t rest ih =>
    obtain ⟨next, event, accepted, later⟩ := exists_step_of_run_eq_ok h
    have noClose' : ∀ u ∈ rest, u.lexeme ≠ .closeBracket := fun u hu => noClose u (by simp [hu])
    cases transition_of_step accepted with
    -- Most transitions are none of this state, and the close bracket comes only behind `inside`.
    | passed left positive => simp [positive] at passing
    | referred _ _ _ notExpecting | collected _ _ _ notExpecting | shifted _ _ _ notExpecting =>
      simp [expecting] at notExpecting
    | opened _ _ outside | applied _ _ _ _ _ _ _ _ outside | arrayOpened _ _ outside =>
      simp [outside] at building
    | arrayClosed _ lexeme => exact absurd lexeme (noClose t (by simp))
    | blank _ _ lexeme | dropped _ _ _ _ lexeme =>
      -- the first name is still to come
      rw [parens_cons_of_not_isParen (by simp [isParen, lexeme]),
        definitionFirst_cons_of_not_isName (by simp [isName, lexeme])]
      exact ih later noClose' passing building expecting
    | headed name _ _ lexeme ordinary =>
      -- the first name is that of a function, and function position is left for good
      rw [parens_cons_of_not_isParen (by simp [isParen, lexeme]),
        definitionFirst_cons_of_isName (by simp [isName, lexeme])]
      have empty := parens_eq_nil_of_not_expecting later noClose' passing building rfl
      exact ⟨fun word => absurd (by simpa [lexeme] using word) ordinary, fun _ => empty⟩
    -- The word takes its name, literal and close paren along, and function position is left.
    | defined key bound _ _ lexeme form =>
      rw [parens_cons_of_not_isParen (by simp [isParen, lexeme]),
        definitionFirst_cons_of_isName (by simp [isName, lexeme])]
      refine ⟨fun _ => ?_, fun other => absurd lexeme other⟩
      obtain ⟨name, literal, close, kind, after', split, nameLexeme, literalLexeme, lexeme'⟩ :=
        definition_eq_ok form
      -- the close bracket is none of the three tokens behind the word
      have notAmong : closing ∉ [name, literal, close] := by
        intro among
        simp only [List.mem_cons, List.not_mem_nil, or_false] at among
        rcases among with rfl | rfl | rfl
        · simp [closeLexeme] at nameLexeme
        · simp [closeLexeme] at literalLexeme
        · simp [closeLexeme] at lexeme'
      obtain ⟨rest', rfl, -⟩ := exists_append_of_not_mem notAmong split
      have behind : (run registry { m.define key bound with passing := 0 }
          (rest' ++ closing :: after)).result = .ok value := by
        rw [← (reaches_define name literal close).run_append]
        simpa using later
      have empty := parens_eq_nil_of_not_expecting behind
        (fun u hu => noClose' u (by simp [hu])) rfl building rfl
      have closes : close.isParen = true := isParen_eq_true_iff.mpr (.inr lexeme')
      rw [List.cons_append, List.cons_append, List.cons_append, List.nil_append,
        parens_cons_of_not_isParen (by simp [isParen, nameLexeme]),
        parens_cons_of_not_isParen (by simp [isParen, literalLexeme]),
        parens_cons_of_isParen closes, lexeme', empty]

/-! ## §3 The law of brackets -/

/-- **Parens between brackets.** When an evaluation yields a value, an open bracket and the
next close bracket have no paren between them, unless the name of a function is due at the
open bracket and the first name behind it opens a definition. Then there is exactly one, the
close paren of that definition. -/
theorem parens_between_brackets (registry : Registry) (env : Environment) (tokens : List Token)
    (value : Value) (h : (evaluate registry env tokens).result = .ok value)
    (before inside after : List Token) (opening closing : Token)
    (split : tokens = before ++ opening :: (inside ++ closing :: after))
    (isOpen : opening.lexeme = .openBracket) (isClose : closing.lexeme = .closeBracket)
    (noClose : ∀ t ∈ inside, t.lexeme ≠ .closeBracket) :
    (FunctionDue before ∧ DefinitionFirst inside → parens inside = [.closeParen]) ∧
    (¬ (FunctionDue before ∧ DefinitionFirst inside) → parens inside = []) := by
  have cut : significant tokens
      = significant before ++ opening :: (significant inside ++ closing :: significant after) := by
    simp [split, significant, isOpen, isClose, Lexeme.isBlank]
  rw [evaluate, cut] at h
  -- the state in front of the open bracket: nothing is owed, and it knows whether a name is due
  obtain ⟨m, reached, ended⟩ := exists_reaches_of_run_eq_ok h
  obtain ⟨owed, expecting_iff, -⟩ := attentive_of_reaches reached
  have passing : m.passing = 0 :=
    owed.eq_zero (by simp [isOpen]) (by simp [isOpen, Lexeme.isLiteral]) (by simp [isOpen, isName])
  rw [functionDue_significant] at expecting_iff
  obtain ⟨next, event, accepted, later⟩ := exists_step_of_run_eq_ok ended
  have noClose' : ∀ t ∈ significant inside, t.lexeme ≠ .closeBracket :=
    fun t ht => noClose t (List.mem_filter.mp ht).1
  rw [← definitionFirst_significant inside, ← parens_significant inside, ← expecting_iff]
  obtain ⟨-, -, rfl⟩ := openBracket_of_step passing isOpen accepted
  cases expecting : m.expecting with
  | false =>
    have empty := parens_eq_nil_of_not_expecting later noClose' passing rfl expecting
    exact ⟨fun due => absurd due.1 (by simp), fun _ => empty⟩
  | true =>
    have found := parens_of_expecting later isClose noClose' passing rfl expecting
    exact ⟨fun due => found.1 due.2, fun other => found.2 fun first => other ⟨rfl, first⟩⟩

/-- The tokens of `([def x 5)]`. -/
def definitionInArray : List Token :=
  [⟨.openParen, 0⟩, ⟨.openBracket, 1⟩, ⟨.identifier "def", 2⟩, ⟨.whitespace " ", 5⟩,
   ⟨.identifier "x", 6⟩, ⟨.whitespace " ", 7⟩, ⟨.literal .int (.int 5), 8⟩, ⟨.closeParen, 9⟩,
   ⟨.closeBracket, 10⟩]

/-- A call can be closed between brackets: the array is empty and the constant is bound. -/
theorem paren_between_brackets :
    (evaluate .standard {} definitionInArray).result = .ok (.array []) ∧
    ∃ before opening inside closing after,
      definitionInArray = before ++ opening :: (inside ++ closing :: after) ∧
      opening.lexeme = .openBracket ∧ closing.lexeme = .closeBracket ∧
      (∀ t ∈ inside, t.lexeme ≠ .closeBracket) ∧ ∃ t ∈ inside, t.isParen = true :=
  ⟨by rfl, definitionInArray.take 1, ⟨.openBracket, 1⟩, (definitionInArray.drop 2).take 6,
    ⟨.closeBracket, 10⟩, [], rfl, rfl, rfl, by decide, ⟨.closeParen, 9⟩, by decide, rfl⟩

theorem parens_between_brackets_definitionInArray :
    (evaluate .standard {} definitionInArray).result = .ok (.array []) ∧
    parens ((definitionInArray.drop 2).take 6) = [.closeParen] :=
  ⟨by rfl,
    (parens_between_brackets .standard {} definitionInArray (.array []) (by rfl)
      (definitionInArray.take 1) ((definitionInArray.drop 2).take 6) [] ⟨.openBracket, 1⟩
      ⟨.closeBracket, 10⟩ rfl rfl rfl (by decide)).1
      ⟨⟨[], ⟨.openParen, 0⟩, [], rfl, rfl, by simp⟩, rfl⟩⟩

end Machine

end PrefixCalc
