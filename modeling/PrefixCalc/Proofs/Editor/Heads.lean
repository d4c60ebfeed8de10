import PrefixCalc.Proofs.Editor.Transition
import PrefixCalc.Proofs.Machine.Blame
import PrefixCalc.Proofs.Machine.Constants
import PrefixCalc.Proofs.OrderedMap
import PrefixCalc.Proofs.Token.Line
import PrefixCalc.Session

/-!
# Names in the index

The machine awaits the name of a function from an open paren to the next name or paren, the index
only up to the next bracket. Where no bracket stands there, both take every name for the same: the
head of a call, the word of a definition, or a constant. So as long as the machine accepts its
tokens, a function that waits is known or noted, and a constant is bound in one exactly if it is
in the other; and a mistake about a name, on which the machine stops, has been noted.
-/

namespace PrefixCalc

namespace Token

/-! ## §1 Brackets in front of a head -/

/-- Whether a token opens or closes an array. -/
def isBracket (t : Token) : Bool :=
  match t.lexeme with
  | .openBracket | .closeBracket => true
  | _ => false

/-- No bracket stands between an open paren and the next name or paren, if one follows. -/
def HeadsBare : List Token → Prop
  | [] => True
  | t :: behind =>
    (t.lexeme = .openParen → (∃ next ∈ behind, next.isPlain = false) →
      ∀ u ∈ behind.takeWhile isPlain, u.isBracket = false) ∧ HeadsBare behind

instance decidableHeadsBare : (tokens : List Token) → Decidable (HeadsBare tokens)
  | [] => inferInstanceAs (Decidable True)
  | _ :: behind =>
    have := decidableHeadsBare behind
    inferInstanceAs (Decidable (_ ∧ _))

variable {front back before ahead : List Token} {t : Token}

private theorem HeadsBare.of_append (bare : HeadsBare (front ++ back)) : HeadsBare back := by
  induction front with
  | nil => exact bare
  | cons t front ih => exact ih bare.2

private theorem isPlain_of_isBracket (bracket : t.isBracket = true) : t.isPlain = true := by
  unfold isBracket at bracket
  split at bracket
  · simp [isPlain, isParen, isName, *]
  · simp [isPlain, isParen, isName, *]
  · cases bracket

/-- Behind a bracket that stands where a function is due there is no name and no paren. -/
theorem HeadsBare.isPlain_of_mem (bare : HeadsBare (before ++ t :: ahead))
    (due : FunctionDue before) (bracket : t.isBracket = true) : ∀ u ∈ ahead, u.isPlain = true := by
  obtain ⟨front, opening, lead, rfl, isOpen, plain⟩ := due
  rw [List.append_assoc, List.cons_append] at bare
  have first := bare.of_append.1 isOpen
  intro u member
  by_contra notPlain
  have among : u ∈ lead ++ t :: ahead := List.mem_append_right lead (List.mem_cons_of_mem t member)
  have bracketless := first ⟨u, among, by simpa using notPlain⟩
  -- the bracket is one of the tokens in front of the next name or paren
  have leadPlain : ∀ v ∈ lead, v.isPlain = true := fun v there =>
    isPlain_eq_true_iff.mpr (plain v there)
  rw [List.takeWhile_append_of_pos leadPlain,
    List.takeWhile_cons_of_pos (isPlain_of_isBracket bracket)] at bracketless
  have none := bracketless t (List.mem_append_right lead List.mem_cons_self)
  rw [none] at bracket
  cases bracket

end Token

namespace Index

open Machine Token

variable {place : Int → Position} {p : Progress} {m next last : Machine} {token : Token}
  {before ahead : List Token} {event : Option Event}

/-! ## §2 In step -/

/-- The machine and the index, in front of the same tokens, take the next name for the same. -/
structure InStep (before : List Token) (m : Machine) (p : Progress) (ahead : List Token) :
    Prop where
  attentive : Attentive before m ahead
  bare : HeadsBare (before ++ ahead)
  solid : ∀ t ∈ ahead, t.lexeme.isBlank = false
  passing : p.passing = m.passing
  /-- Both await the name of a function or neither does, as long as a name or a paren comes. -/
  heading : p.heading = m.expecting ∨ ∀ t ∈ ahead, t.isPlain = true
  /-- The same constants are defined. -/
  constants : ∀ name, p.index.constants.contains name = m.env.contains name
  /-- A function that waits is known, unless one is noted that is not. -/
  functions : p.index.unknownFunctions = [] →
    ∀ head ∈ m.functions, Registry.standard.contains head.name = true
  undefinedConstants : p.index.undefinedConstants = []

private theorem InStep.bare_append (together : InStep before m p (token :: ahead)) :
    HeadsBare (before ++ [token] ++ ahead) := by
  rw [List.append_assoc]
  exact together.bare

/-- A name is the name of a function for both or for neither. -/
theorem InStep.heading_eq {name : Text} (together : InStep before m p (token :: ahead))
    (lexeme : token.lexeme = .identifier name) : p.heading = m.expecting := by
  rcases together.heading with same | plain
  · exact same
  · have notName := (isPlain_eq_true_iff.mp (plain token List.mem_cons_self)).2
    rw [isName, lexeme] at notName
    cases notName

/-- A token that defines nothing and names no function leaves both in step, provided that they
agree on what is awaited behind it. -/
theorem InStep.of_silent {q : Progress} (together : InStep before m p (token :: ahead))
    (h : m.step .standard token ahead = .ok (next, event)) (passing : q.passing = next.passing)
    (heading : q.heading = next.expecting ∨ ∀ t ∈ ahead, t.isPlain = true)
    (constants : q.index.constants = p.index.constants) (env : next.env = m.env)
    (unknown : q.index.unknownFunctions = p.index.unknownFunctions)
    (functions : next.functions ⊆ m.functions)
    (undefined : q.index.undefinedConstants = p.index.undefinedConstants) :
    InStep (before ++ [token]) next q ahead where
  attentive := attentive_of_step h together.attentive
  bare := together.bare_append
  solid := (List.forall_mem_cons.mp together.solid).2
  passing := passing
  heading := heading
  constants name := by rw [constants, env, together.constants]
  functions none head pending :=
    together.functions (unknown.symm.trans none) head (functions pending)
  undefinedConstants := undefined.trans together.undefinedConstants

/-- Both pass over a literal where they await the name of a function, and nowhere else does it
matter to names. -/
theorem InStep.of_literal (together : InStep before m p (token :: ahead))
    (h : m.step .standard token ahead = .ok (next, event)) (passing : m.passing = 0)
    (literal : token.lexeme.isLiteral = true) (calls : next.calls = m.calls)
    (env : next.env = m.env) :
    InStep (before ++ [token]) next (step place p token ahead) ahead := by
  obtain ⟨ignoredValues, stepped⟩ :=
    exists_step_of_isLiteral place ahead (together.passing.trans passing) literal
  have functions : next.functions = m.functions := congrArg Calls.functions calls
  have expecting : next.expecting = m.expecting := congrArg Calls.expecting calls
  rw [stepped]
  refine together.of_silent h ?_ ?_ rfl env rfl (functions ▸ List.Subset.refl _) rfl
  · exact together.passing.trans (congrArg Calls.passing calls).symm
  · rw [expecting]
    exact together.heading.imp id fun plain => (List.forall_mem_cons.mp plain).2

/-- A paren or a bracket changes nothing but balances, and what is awaited. -/
theorem InStep.of_mark (together : InStep before m p (token :: ahead))
    (h : m.step .standard token ahead = .ok (next, event)) (passing : m.passing = 0)
    (notName : token.isName = false) (notLiteral : token.lexeme.isLiteral = false)
    (env : next.env = m.env) (functions : next.functions ⊆ m.functions) (idle : next.passing = 0)
    (heading :
      decide (token.lexeme = .openParen) = next.expecting ∨ ∀ t ∈ ahead, t.isPlain = true) :
    InStep (before ++ [token]) next (step place p token ahead) ahead := by
  rw [step_of_other (together.passing.trans passing) fun _ => ⟨notName, notLiteral⟩]
  obtain ⟨structural, parenBalance, bracketBalance, taken⟩ :=
    exists_takeOther_of_not_isName p.index (place token.offset) notName
  rw [taken]
  exact together.of_silent h idle.symm heading rfl env rfl functions rfl

/-- Where a function is awaited in front of a bracket, no name and no paren comes any more. -/
theorem InStep.heading_of_bracket (together : InStep before m p (token :: ahead))
    (bracket : token.isBracket = true) :
    false = m.expecting ∨ ∀ t ∈ ahead, t.isPlain = true := by
  cases expecting : m.expecting with
  | false => exact .inl rfl
  | true =>
    have due := together.attentive.expecting_iff.mp expecting
    exact .inr (together.bare.isPlain_of_mem due bracket)

/-- A definition is one for both, and binds the same name. -/
theorem InStep.of_definition {key : Text} {bound : Scalar}
    (together : InStep before m p (token :: ahead))
    (h : m.step .standard token ahead = .ok (m.define key bound, event)) (passing : m.passing = 0)
    (expecting : m.expecting = true) (lexeme : token.lexeme = .identifier definitionWord)
    (form : definition token.offset ahead = .ok (key, bound)) :
    InStep (before ++ [token]) (m.define key bound) (step place p token ahead) ahead := by
  have heading : p.heading = true := (together.heading_eq lexeme).trans expecting
  obtain ⟨keyOffset, kind, found⟩ := definition?_of_definition form
  rw [step_of_definition (together.passing.trans passing) heading lexeme found]
  refine ⟨attentive_of_step h together.attentive, together.bare_append,
    (List.forall_mem_cons.mp together.solid).2, rfl, .inl rfl, ?_, together.functions,
    together.undefinedConstants⟩
  intro name
  show (p.index.constants.insert key _).contains name = (m.env.insert key _).contains name
  rw [OrderedMap.contains_insert, OrderedMap.contains_insert, together.constants]

/-- The name of a function waits in the machine, and is noted if there is no such function. -/
theorem InStep.of_head {name : Text} (together : InStep before m p (token :: ahead))
    (h : m.step .standard token ahead = .ok
      ({ m with expecting := false, functions := ⟨name, token.offset⟩ :: m.functions }, event))
    (passing : m.passing = 0) (expecting : m.expecting = true)
    (lexeme : token.lexeme = .identifier name) (ordinary : name ≠ definitionWord) :
    InStep (before ++ [token])
      { m with expecting := false, functions := ⟨name, token.offset⟩ :: m.functions }
      (step place p token ahead) ahead := by
  have heading : p.heading = true := (together.heading_eq lexeme).trans expecting
  have attentive := attentive_of_step h together.attentive
  have bare := together.bare_append
  have solid := (List.forall_mem_cons.mp together.solid).2
  rw [step_of_head (together.passing.trans passing) heading lexeme, takeHead, if_neg ordinary]
  split
  · rename_i known
    refine ⟨attentive, bare, solid, passing.symm, .inl rfl, together.constants, ?_,
      together.undefinedConstants⟩
    intro none head pending
    rcases List.mem_cons.mp pending with rfl | earlier
    · exact known
    · exact together.functions none head earlier
  · refine ⟨attentive, bare, solid, passing.symm, .inl rfl, together.constants, ?_,
      together.undefinedConstants⟩
    intro none
    exact absurd none (List.append_ne_nil_of_right_ne_nil _ (List.cons_ne_nil _ _))

/-- **In step**: a token that the machine accepts leaves both in step. -/
theorem inStep_of_step (h : m.step .standard token ahead = .ok (next, event))
    (together : InStep before m p (token :: ahead)) :
    InStep (before ++ [token]) next (step place p token ahead) ahead := by
  cases transition_of_step h with
  -- Both pass over the same tokens of a definition.
  | passed left passing =>
    rw [step_of_passing (together.passing.trans passing)]
    refine together.of_silent h rfl ?_ rfl rfl rfl (List.Subset.refl _) rfl
    exact together.heading.imp id fun plain => (List.forall_mem_cons.mp plain).2
  | blank text passing lexeme =>
    have solid := together.solid token List.mem_cons_self
    rw [lexeme] at solid
    cases solid
  | defined key bound passing expecting lexeme form =>
    exact together.of_definition h passing expecting lexeme form
  | headed name passing expecting lexeme ordinary =>
    exact together.of_head h passing expecting lexeme ordinary
  -- A constant that the machine finds is one that the index knows.
  | referred name bound passing expecting lexeme found =>
    have heading : p.heading = false := (together.heading_eq lexeme).trans expecting
    have known : p.index.constants.contains name = true := by
      rw [together.constants, OrderedMap.contains, found, Option.isSome_some]
    rw [step_of_other (together.passing.trans passing) (by simp [heading]), takeOther, takeToken,
      lexeme]
    dsimp only
    rw [if_pos known]
    exact together.of_silent h passing.symm (.inl expecting.symm) rfl rfl rfl
      (List.Subset.refl _) rfl
  | dropped _ _ passing _ lexeme | collected _ _ passing _ lexeme
  | shifted _ _ passing _ lexeme =>
    exact together.of_literal h passing (by rw [lexeme]; rfl) rfl rfl
  -- Marks tell the index nothing of names. Only an open paren makes both await a function.
  | opened passing lexeme array =>
    refine together.of_mark h passing ?_ ?_ rfl (List.Subset.refl _) passing (.inl ?_)
    · rw [isName, lexeme]
    · rw [lexeme]
      rfl
    · exact decide_eq_true lexeme
  | applied head waiting builtin arguments values result passing lexeme array depth pending =>
    refine together.of_mark h passing ?_ ?_ rfl ?_ passing (.inl ?_)
    · rw [isName, lexeme]
    · rw [lexeme]
      rfl
    · exact pending ▸ List.subset_cons_self head waiting
    · rw [lexeme]
      rfl
  | arrayOpened passing lexeme | arrayClosed passing lexeme =>
    have bracket : token.isBracket = true := by rw [isBracket, lexeme]
    refine together.of_mark h passing ?_ ?_ rfl (List.Subset.refl _) passing ?_
    · rw [isName, lexeme]
    · rw [lexeme]
      rfl
    · rw [lexeme]
      exact together.heading_of_bracket bracket

/-! ## §3 Mistakes about names -/

theorem solid_significant (tokens : List Token) :
    ∀ t ∈ significant tokens, t.lexeme.isBlank = false := by
  intro t member
  simpa using (List.mem_filter.mp member).2

/-- The machine and the index start in step. -/
theorem inStep_start {tokens : List Token} (bare : HeadsBare tokens)
    (solid : ∀ t ∈ tokens, t.lexeme.isBlank = false) : InStep [] { env := {} } {} tokens where
  attentive := ⟨.nothing _, by simp [not_functionDue_nil], fun _ => rfl⟩
  bare := bare
  solid := solid
  passing := rfl
  heading := .inl rfl
  constants _ := rfl
  functions _ _ pending := absurd pending List.not_mem_nil
  undefinedConstants := rfl

/-- Where a step makes a mistake about a name, one is noted. -/
theorem exists_noted_of_step (place : Int → Position) {failure : Failure}
    (together : InStep before m p (token :: ahead))
    (h : m.step .standard token ahead = .error failure) (ofNames : failure.isOfNames = true) :
    let noted := (step place p token ahead).index
    noted.unknownFunctions ≠ [] ∨ noted.undefinedConstants ≠ [] ∨
      ∃ problem ∈ noted.structural, problem.finding = .brokenDefinition := by
  intro noted
  -- Of the failures of a step, three are mistakes about names; the others are of another category.
  cases failing_of_step h with
  | misplaced cause _ _ _ category =>
    rw [Failure.isOfNames, category] at ofNames
    cases ofNames
  | broken failure passing expecting lexeme form =>
    have idle : p.passing = 0 := together.passing.trans passing
    have heading : p.heading = true := (together.heading_eq lexeme).trans expecting
    have stepped : noted = p.index.noteStructural .brokenDefinition (place token.offset) := by
      show (step place p token ahead).index = _
      rw [step_of_head idle heading lexeme, takeHead, if_pos rfl, takeDefinition,
        definition?_eq_none form]
      rfl
    rw [stepped]
    exact .inr (.inr ⟨_, List.mem_append_right _ (List.mem_singleton.mpr rfl), rfl⟩)
  | unbound name passing expecting lexeme none =>
    have idle : p.passing = 0 := together.passing.trans passing
    have heading : p.heading = false := (together.heading_eq lexeme).trans expecting
    -- both look the name up among the same definitions
    have unknown : ¬ p.index.constants.contains name = true := by
      rw [together.constants, OrderedMap.contains, none]
      exact Bool.false_ne_true
    have stepped : noted.undefinedConstants
        = p.index.undefinedConstants ++ [⟨.undefinedConstant name, place token.offset⟩] := by
      show (step place p token ahead).index.undefinedConstants = _
      rw [step_of_other idle (by simp [heading]), takeOther, takeToken, lexeme]
      dsimp only
      rw [if_neg unknown, noteUndefined]
    rw [stepped]
    exact .inr (.inl (List.append_ne_nil_of_right_ne_nil _ (List.cons_ne_nil _ _)))
  | unknown head functions passing lexeme pending none =>
    -- the name was noted when it was taken
    refine .inl fun clean => ?_
    have grown : p.index.Extends noted :=
      extends_of_transition (transition_step place p token ahead)
    have earlier : p.index.unknownFunctions = [] :=
      List.subset_nil.mp (clean ▸ grown.unknownFunctions)
    have known := together.functions earlier head (pending ▸ List.mem_cons_self)
    rw [OrderedMap.contains, none] at known
    cases known
  -- A known function that is applied in vain is no mistake about a name.
  | unfit failure head functions builtin passing lexeme pending known untaken =>
    rw [isOfNames_takeArguments untaken] at ofNames
    cases ofNames
  | failed failure head builtin arguments applies invoked =>
    obtain ⟨rest, taken⟩ := applies.taken
    have member := Builtin.mem_of_get?_standard applies.known
    rw [isOfNames_invoke member (fit_of_taken taken).2 invoked] at ofNames
    cases ofNames

private theorem isOfNames_of_run {tokens : List Token} {failure : Failure} (bare : HeadsBare tokens)
    (solid : ∀ t ∈ tokens, t.lexeme.isBlank = false)
    (functions : (scan place {} tokens).unknownFunctions = [])
    (constants : (scan place {} tokens).undefinedConstants = [])
    (definitions : ∀ problem ∈ (scan place {} tokens).structural,
      problem.finding ≠ .brokenDefinition)
    (h : (run .standard { env := {} } tokens).result = .error failure) :
    failure.isOfNames = false := by
  by_contra ofNames
  rw [Bool.not_eq_false] at ofNames
  -- the run stops at the end, where no mistake is about a name, or at a token that makes one
  obtain ⟨ahead, last, split, reached, ending⟩ :=
    exists_reaches_accepted .standard { env := {} } tokens
  rcases ending with ⟨-, ended⟩ | ⟨token, rest, failure, rfl, stepped, ended⟩
  · rw [ended] at h
    rw [isOfNames_result h] at ofNames
    cases ofNames
  · rw [ended] at h
    cases h
    have start := inStep_start bare solid
    rw [split] at start
    obtain ⟨q, scanned, together⟩ :=
      exists_scan_of_reaches place inStep_of_step reached [] start
    -- what is noted at that token is still there in the end
    have kept : (step place q token rest).index.Extends (scan place {} tokens) := by
      rw [split, scanned]
      exact extends_scan _ rest
    rcases exists_noted_of_step place together stepped ofNames with
      function | constant | ⟨problem, noted, finding⟩
    · exact function (List.subset_nil.mp (functions ▸ kept.unknownFunctions))
    · exact constant (List.subset_nil.mp (constants ▸ kept.undefinedConstants))
    · exact definitions problem (kept.structural noted) finding

/-- **No bad name is missed.** Let no bracket stand between an open paren and the next name or
paren of a text. If its index reports no unknown function, no undefined constant and no broken
definition, then the evaluation of the text makes no mistake about a name, whatever else goes
wrong: no function is unknown, no constant is undefined and no definition is broken. -/
theorem category_ne_of_clean (text : Text) (bare : HeadsBare (significant (read text)))
    (functions : (ofText text).unknownFunctions = [])
    (constants : (ofText text).undefinedConstants = [])
    (definitions : ∀ problem ∈ (ofText text).structural, problem.finding ≠ .brokenDefinition)
    (cause : Cause) (offset : Option Int)
    (h : evaluate text = .error (.refused cause offset)) :
    cause.category ≠ .invalidFunction ∧ cause.category ≠ .undefinedConstant ∧
      cause.category ≠ .definition := by
  rw [ofText_eq] at functions constants definitions
  have harmless : cause.category.isOfNames = false :=
    isOfNames_of_run bare (solid_significant _) functions constants definitions h
  refine ⟨?_, ?_, ?_⟩ <;> intro category <;> rw [category] at harmless <;> cases harmless

/-- A text in which every name is good, also the one inside brackets, and an argument is not. -/
def unfitText : Text := "(def x 1) [2 x] (plus x \"a\")"

theorem category_ne_of_clean_unfitText :
    HeadsBare (significant (read unfitText)) ∧ (ofText unfitText).unknownFunctions = [] ∧
    (ofText unfitText).undefinedConstants = [] ∧ (ofText unfitText).structural = [] ∧
    ∃ cause offset, evaluate unfitText = .error (.refused cause offset) ∧
      cause.category = .type ∧ cause.category ≠ .undefinedConstant := by
  have tokens : significant (read unfitText) = [⟨.openParen, 0⟩, ⟨.identifier "def", 1⟩,
      ⟨.identifier "x", 5⟩, ⟨.literal .int (.int 1), 7⟩, ⟨.closeParen, 8⟩, ⟨.openBracket, 10⟩,
      ⟨.literal .int (.int 2), 11⟩, ⟨.identifier "x", 13⟩, ⟨.closeBracket, 14⟩, ⟨.openParen, 16⟩,
      ⟨.identifier "plus", 17⟩, ⟨.identifier "x", 22⟩, ⟨.literal .string (.string "a"), 24⟩,
      ⟨.closeParen, 27⟩] := by
    rw [read_eq_onePassFrom]
    decide +kernel
  have refused : evaluate unfitText
      = .error (.refused (.wrongArgument "plus" 1 .number (.scalar .string)) (some 17)) := by
    show (run .standard _ (significant (read unfitText))).result = _
    rw [tokens]
    rfl
  have bare : HeadsBare (significant (read unfitText)) := by
    rw [tokens]
    decide
  obtain ⟨functions, constants, form⟩ : (ofText unfitText).unknownFunctions = [] ∧
      (ofText unfitText).undefinedConstants = [] ∧ (ofText unfitText).structural = [] := by
    rw [ofText_eq]
    rw [tokens]
    decide +kernel
  have definitions : ∀ problem ∈ (ofText unfitText).structural,
      problem.finding ≠ .brokenDefinition := by
    intro problem noted
    exact absurd (form ▸ noted) List.not_mem_nil
  have law := category_ne_of_clean unfitText bare functions constants definitions _ _ refused
  exact ⟨bare, functions, constants, form, _, _, refused, rfl, law.2.1⟩

end Index

end PrefixCalc
