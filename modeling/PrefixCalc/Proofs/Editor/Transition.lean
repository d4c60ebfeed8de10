import PrefixCalc.Proofs.Editor.Index

/-!
# Transitions of the index

Everything that the index does with a token, said once. Unlike the machine it refuses none: a token
that cannot stand where it does is noted, and the index goes on behind it. So a `Transition` lists
the ways in which a token is taken, each with the conditions under which it happens and what is
known behind it, and `transition_step` says that there are no others. Laws of the index are case
analyses over the transitions, and `scanned_invariant` carries them along the tokens.
-/

namespace PrefixCalc.Index

variable {place : Int → Position} {p q : Progress} {index : Index} {token : Token}
  {ahead tokens : List Token}

/-! ## §1 One token -/

/-- The ways in which the index takes a token, given the tokens after it. -/
inductive Transition (place : Int → Position) (p : Progress) (token : Token)
    (ahead : List Token) : Progress → Prop where
  /-- The token belongs to a definition that was recognised before. -/
  | passed (left : Nat) (passing : p.passing = left + 1) :
      Transition place p token ahead { p with passing := left }
  /-- A literal where a function is awaited. -/
  | ignored (kind : ScalarKind) (value : Scalar) (passing : p.passing = 0)
      (heading : p.heading = true) (lexeme : token.lexeme = .literal kind value) :
      Transition place p token ahead { p with index := { p.index with
        ignoredValues := p.index.ignoredValues ++ [⟨.ignoredValue, place token.offset⟩] } }
  /-- The word that opens a definition, with a whole definition behind it. -/
  | defined (key : Text) (offset : Int) (kind : ScalarKind) (passing : p.passing = 0)
      (heading : p.heading = true) (lexeme : token.lexeme = .identifier definitionWord)
      (form : definition? ahead = some (key, offset, kind)) :
      Transition place p token ahead
        { index := { p.index with
            constants := p.index.constants.insert key ⟨kind, place offset⟩
            parenBalance := p.index.parenBalance - 1 }
          passing := 3 }
  /-- The word that opens a definition, without one behind it. -/
  | broken (passing : p.passing = 0) (heading : p.heading = true)
      (lexeme : token.lexeme = .identifier definitionWord) (form : definition? ahead = none) :
      Transition place p token ahead
        { index := p.index.noteStructural .brokenDefinition (place token.offset) }
  /-- The name of a builtin where a function is awaited. -/
  | headed (name : Text) (passing : p.passing = 0) (heading : p.heading = true)
      (lexeme : token.lexeme = .identifier name) (ordinary : name ≠ definitionWord)
      (known : Registry.standard.contains name = true) :
      Transition place p token ahead { index := p.index }
  /-- Another name where a function is awaited. -/
  | unknown (name : Text) (passing : p.passing = 0) (heading : p.heading = true)
      (lexeme : token.lexeme = .identifier name) (ordinary : name ≠ definitionWord)
      (none : Registry.standard.contains name = false) :
      Transition place p token ahead
        { index := { p.index with
            unknownFunctions :=
              p.index.unknownFunctions ++ [⟨.unknownFunction name, place token.offset⟩] } }
  /-- The name of a constant. -/
  | referred (name : Text) (passing : p.passing = 0) (heading : p.heading = false)
      (lexeme : token.lexeme = .identifier name)
      (known : p.index.constants.contains name = true) :
      Transition place p token ahead { index := p.index }
  /-- The name of no constant. -/
  | undefined (name : Text) (passing : p.passing = 0) (heading : p.heading = false)
      (lexeme : token.lexeme = .identifier name)
      (none : p.index.constants.contains name = false) :
      Transition place p token ahead
        { index := { p.index with
            undefinedConstants :=
              p.index.undefinedConstants ++ [⟨.undefinedConstant name, place token.offset⟩] } }
  /-- An open paren. -/
  | opened (passing : p.passing = 0) (lexeme : token.lexeme = .openParen) :
      Transition place p token ahead
        { index := { p.index with parenBalance := p.index.parenBalance + 1 }, heading := true }
  /-- A close paren, with a paren to close. -/
  | closed (passing : p.passing = 0) (lexeme : token.lexeme = .closeParen)
      (some : 0 < p.index.parenBalance) :
      Transition place p token ahead
        { index := { p.index with parenBalance := p.index.parenBalance - 1 } }
  /-- A close paren too many. -/
  | overclosed (passing : p.passing = 0) (lexeme : token.lexeme = .closeParen)
      (none : p.index.parenBalance ≤ 0) :
      Transition place p token ahead
        { index := { p.index with parenBalance := 0 }.noteStructural .tooManyClosed
            (place token.offset) }
  /-- An open bracket outside of any array. -/
  | arrayOpened (passing : p.passing = 0) (lexeme : token.lexeme = .openBracket)
      (none : p.index.bracketBalance ≤ 0) :
      Transition place p token ahead
        { index := { p.index with bracketBalance := p.index.bracketBalance + 1 } }
  /-- An open bracket inside an array. -/
  | arrayNested (passing : p.passing = 0) (lexeme : token.lexeme = .openBracket)
      (some : 0 < p.index.bracketBalance) :
      Transition place p token ahead
        { index := { p.index with bracketBalance := p.index.bracketBalance + 1 }.noteStructural
            .arrayInArray (place token.offset) }
  /-- A close bracket, with an array to close. -/
  | arrayClosed (passing : p.passing = 0) (lexeme : token.lexeme = .closeBracket)
      (some : 0 < p.index.bracketBalance) :
      Transition place p token ahead
        { index := { p.index with bracketBalance := p.index.bracketBalance - 1 } }
  /-- A close bracket too many. -/
  | arrayOverclosed (passing : p.passing = 0) (lexeme : token.lexeme = .closeBracket)
      (none : p.index.bracketBalance ≤ 0) :
      Transition place p token ahead
        { index := { p.index with bracketBalance := 0 }.noteStructural .noArrayToClose
            (place token.offset) }
  /-- A literal where no function is awaited, or white space. -/
  | quiet (passing : p.passing = 0)
      (lexeme : token.lexeme.isBlank = true ∨
        p.heading = false ∧ token.lexeme.isLiteral = true) :
      Transition place p token ahead { index := p.index }

private theorem transition_takeHead {name : Text} (passing : p.passing = 0)
    (heading : p.heading = true)
    (lexeme : token.lexeme = .identifier name) :
    Transition place p token ahead
      (.behindHead (takeHead place p.index name token.offset ahead)) := by
  unfold takeHead
  split
  · rename_i word
    subst word
    unfold takeDefinition
    split
    · exact .defined _ _ _ passing heading lexeme ‹_›
    · exact .broken passing heading lexeme ‹_›
  rename_i ordinary
  split
  · exact .headed name passing heading lexeme ordinary ‹_›
  · rename_i none
    exact .unknown name passing heading lexeme ordinary (Bool.eq_false_iff.mpr none)

private theorem transition_takeOther (passing : p.passing = 0)
    (other : p.heading = true → token.isName = false ∧ token.lexeme.isLiteral = false) :
    Transition place p token ahead (takeOther p.index token (place token.offset)) := by
  unfold takeOther takeToken
  cases lexeme : token.lexeme with
  | openParen => exact .opened passing lexeme
  -- For the other three marks the balance tells which of two transitions it is.
  | closeParen =>
    dsimp only
    split
    · exact .overclosed passing lexeme (by omega)
    · exact .closed passing lexeme (by omega)
  | openBracket =>
    dsimp only
    split
    · exact .arrayNested passing lexeme (by omega)
    · exact .arrayOpened passing lexeme (by omega)
  | closeBracket =>
    dsimp only
    split
    · exact .arrayOverclosed passing lexeme (by omega)
    · exact .arrayClosed passing lexeme (by omega)
  -- Where a function is awaited the token is neither a name nor a literal, so none is awaited here.
  | identifier name =>
    have heading : p.heading = false := Bool.eq_false_iff.mpr fun awaited => by
      simpa [Token.isName, lexeme] using (other awaited).1
    dsimp only
    split
    · exact .referred name passing heading lexeme ‹_›
    · rename_i none
      exact .undefined name passing heading lexeme (Bool.eq_false_iff.mpr none)
  | literal kind value =>
    have heading : p.heading = false := Bool.eq_false_iff.mpr fun awaited => by
      simpa [Lexeme.isLiteral, lexeme] using (other awaited).2
    exact .quiet passing (.inr ⟨heading, by rw [lexeme]; rfl⟩)
  | whitespace blank => exact .quiet passing (.inl (by rw [lexeme]; rfl))

/-- **There are no others.** -/
theorem transition_step (place : Int → Position) (p : Progress) (token : Token)
    (ahead : List Token) : Transition place p token ahead (step place p token ahead) := by
  cases passing : p.passing with
  | succ left =>
    rw [step_of_passing passing]
    exact .passed left passing
  | zero =>
    by_cases heading : p.heading = true
    · cases lexeme : token.lexeme with
      | literal kind value =>
        rw [step_of_ignored passing heading lexeme]
        exact .ignored kind value passing heading lexeme
      | identifier name =>
        rw [step_of_head passing heading lexeme]
        exact transition_takeHead passing heading lexeme
      | whitespace _ | openParen | closeParen | openBracket | closeBracket =>
        have other : p.heading = true → token.isName = false ∧ token.lexeme.isLiteral = false :=
          fun _ => by simp [Token.isName, Lexeme.isLiteral, lexeme]
        rw [step_of_other passing other]
        exact transition_takeOther passing other
    · have other : p.heading = true → token.isName = false ∧ token.lexeme.isLiteral = false :=
        fun awaited => absurd awaited heading
      rw [step_of_other passing other]
      exact transition_takeOther passing other

/-! ## §2 What was noted -/

/-- Nothing that the first index has noted of names is missing in the second. -/
structure Extends (index next : Index) : Prop where
  unknownFunctions : index.unknownFunctions ⊆ next.unknownFunctions
  undefinedConstants : index.undefinedConstants ⊆ next.undefinedConstants
  structural : index.structural ⊆ next.structural

theorem Extends.refl (index : Index) : index.Extends index :=
  ⟨List.Subset.refl _, List.Subset.refl _, List.Subset.refl _⟩

theorem Extends.trans {next last : Index} (first : index.Extends next)
    (second : next.Extends last) : index.Extends last :=
  ⟨List.Subset.trans first.1 second.1, List.Subset.trans first.2 second.2,
    List.Subset.trans first.3 second.3⟩

theorem extends_of_transition (h : Transition place p token ahead q) :
    p.index.Extends q.index := by
  cases h with
  | unknown => exact ⟨List.subset_append_left _ _, List.Subset.refl _, List.Subset.refl _⟩
  | undefined => exact ⟨List.Subset.refl _, List.subset_append_left _ _, List.Subset.refl _⟩
  | broken | overclosed | arrayNested | arrayOverclosed =>
    exact ⟨List.Subset.refl _, List.Subset.refl _, List.subset_append_left _ _⟩
  | passed | ignored | defined | headed | referred | opened | closed | arrayOpened | arrayClosed
  | quiet => exact ⟨List.Subset.refl _, List.Subset.refl _, List.Subset.refl _⟩

/-- What the index has noted is still there when it is finished. -/
theorem extends_scan (p : Progress) (tokens : List Token) :
    p.index.Extends (scan place p tokens) := by
  induction tokens generalizing p with
  | nil => exact .refl p.index
  | cons token ahead ih =>
    exact (extends_of_transition (transition_step place p token ahead)).trans (ih _)

/-! ## §3 Many tokens -/

/-- **Invariants**: what every transition keeps holds behind any number of tokens. -/
theorem scanned_invariant {P : List Token → Progress → List Token → Prop}
    (keeps : ∀ {before p token ahead q}, Transition place p token ahead q →
      P before p (token :: ahead) → P (before ++ [token]) q ahead)
    (n : Nat) (before : List Token) (start : P before p tokens) :
    P (before ++ tokens.take n) (scanned place p n tokens) (tokens.drop n) := by
  induction tokens generalizing before p n with
  | nil => simpa using start
  | cons token ahead ih =>
    cases n with
    | zero => simpa [scanned] using start
    | succ n =>
      have kept := ih n (before ++ [token]) (keeps (transition_step ..) start)
      rwa [List.append_assoc, List.singleton_append] at kept

end PrefixCalc.Index
