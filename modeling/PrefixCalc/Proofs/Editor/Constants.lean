import PrefixCalc.Proofs.Editor.Heads
import PrefixCalc.Proofs.Editor.Transition

/-!
# Constants of the index

The index finds definitions by looking ahead, and the machine performs them. Where no bracket stands
between an open paren and the next name or paren, both find the same ones, as long as the machine
accepts its tokens. So if a text has a value, then the constants of its index are those of the
environment behind it, in the same order, and each tells where its last definition stands.
-/

namespace PrefixCalc

namespace Index

open Machine Token

variable {place : Int → Position} {p : Progress} {m next last : Machine} {token : Token}
  {before ahead tokens : List Token} {event : Option Event}

/-! ## §1 One token -/

/-- What the index knows of the constant that a definition binds. -/
def known (place : Int → Position) (site : Site) : Text × Constant :=
  (site.name, ⟨site.kind, place site.offset⟩)

/-- The index tells definitions by their tokens. -/
theorem definition?_eq_map_site? (ahead : List Token) :
    definition? ahead = (site? ahead).map fun site => (site.name, site.offset, site.kind) := by
  unfold definition?
  split
  · rfl
  · rename_i none
    cases found : site? ahead with
    | none => rfl
    | some site =>
      obtain ⟨⟨_, _⟩, ⟨_, _⟩, ⟨_, _⟩, rest, rfl, nameLexeme, literalLexeme, closeLexeme, -⟩ :=
        eq_of_site? found
      dsimp only at nameLexeme literalLexeme closeLexeme
      subst nameLexeme literalLexeme closeLexeme
      exact absurd rfl (none _ _ _ _ _ _ _)

/-- Only the word of a definition where a function is awaited changes what constants are known. -/
theorem constants_step_of_ne (ordinary : p.passing = 0 → p.heading = true →
      token.lexeme ≠ .identifier definitionWord) (ahead : List Token) :
    (step place p token ahead).index.constants = p.index.constants := by
  have taken := transition_step place p token ahead
  generalize step place p token ahead = q at taken
  cases taken with
  | defined _ _ _ passing heading lexeme => exact absurd lexeme (ordinary passing heading)
  | _ => rfl

/-- What a token adds to the constants of the index is what it adds to the definitions. -/
theorem insertAll_of_step_inStep (h : m.step .standard token ahead = .ok (next, event))
    (together : InStep before m p (token :: ahead)) :
    (step place p token ahead).index.constants.insertAll
        ((sites next.expecting ahead).map (known place))
      = p.index.constants.insertAll
          ((sites m.expecting (token :: ahead)).map (known place)) := by
  rcases sites_of_step h together.attentive with
    ⟨site, passing, expecting, lexeme, found, rfl⟩ | ⟨-, ordinary, same⟩
  · have heading : p.heading = true := (together.heading_eq lexeme).trans expecting
    have recognised : definition? ahead = some (site.name, site.offset, site.kind) := by
      rw [definition?_eq_map_site?, found]
      rfl
    rw [step_of_definition (together.passing.trans passing) heading lexeme recognised, expecting,
      sites_word lexeme found]
    rfl
  · have other : p.passing = 0 → p.heading = true →
        token.lexeme ≠ .identifier definitionWord := fun passing heading lexeme =>
      ordinary (together.passing.symm.trans passing)
        ((together.heading_eq lexeme).symm.trans heading) lexeme
    rw [constants_step_of_ne other, same]

/-- In step, with known constants that become `final` by the definitions to come. -/
structure Foreseen (place : Int → Position) (final : OrderedMap Text Constant)
    (before : List Token) (m : Machine) (p : Progress) (ahead : List Token) : Prop where
  inStep : InStep before m p ahead
  constants : p.index.constants.insertAll ((sites m.expecting ahead).map (known place)) = final

private theorem foreseen_of_step {final : OrderedMap Text Constant}
    (h : m.step .standard token ahead = .ok (next, event))
    (foreseen : Foreseen place final before m p (token :: ahead)) :
    Foreseen place final (before ++ [token]) next (step place p token ahead) ahead where
  inStep := inStep_of_step h foreseen.inStep
  constants := (insertAll_of_step_inStep h foreseen.inStep).trans foreseen.constants

/-! ## §2 Texts that have a value -/

/-- The index of accepted tokens knows their definitions. -/
theorem constants_of_reaches (place : Int → Position)
    (reached : Reaches .standard [] { env := {} } tokens last) (bare : HeadsBare tokens)
    (solid : ∀ t ∈ tokens, t.lexeme.isBlank = false) :
    (scan place {} tokens).constants = .ofList ((sites false tokens).map (known place)) := by
  have start : Foreseen place (.ofList ((sites false tokens).map (known place))) []
      { env := {} } {} (tokens ++ []) := by
    rw [List.append_nil]
    exact ⟨inStep_start bare solid, rfl⟩
  obtain ⟨q, scanned, foreseen⟩ := exists_scan_of_reaches place foreseen_of_step reached [] start
  rw [List.append_nil] at scanned
  rw [scanned]
  exact foreseen.constants

/-- The last one of the definitions among the tokens that binds the name. -/
def LastSite (tokens : List Token) (name : Text) (site : Site) : Prop :=
  ∃ earlier later, sites false tokens = earlier ++ site :: later ∧ site.name = name ∧
    ∀ other ∈ later, other.name ≠ name

/-- A map that is made of the definitions knows a name by the last one that binds it. -/
theorem get?_ofList_map_eq_some_iff {α : Type} {entryOf : Site → Text × α}
    (names : ∀ site, (entryOf site).1 = site.name) (name : Text) (value : α) :
    (OrderedMap.ofList ((sites false tokens).map entryOf)).get? name = some value ↔
      ∃ site, LastSite tokens name site ∧ (entryOf site).2 = value := by
  rw [OrderedMap.get?_ofList_eq_some_iff]
  constructor
  · rintro ⟨earlier, later, split, others⟩
    obtain ⟨front, back, sited, rfl, behind⟩ := List.map_eq_append_iff.mp split
    obtain ⟨site, back, rfl, made, rfl⟩ := List.map_eq_cons_iff.mp behind
    refine ⟨site, ⟨front, back, sited, ?_, fun other member => ?_⟩, by rw [made]⟩
    · rw [← names site, made]
    · rw [← names other]
      exact others _ (List.mem_map_of_mem member)
  · rintro ⟨site, ⟨earlier, later, sited, named, others⟩, rfl⟩
    refine ⟨earlier.map entryOf, later.map entryOf, ?_, fun entry member => ?_⟩
    · rw [sited, List.map_append, List.map_cons, ← named, ← names site]
    · obtain ⟨other, there, rfl⟩ := List.mem_map.mp member
      rw [names]
      exact others other there

/-- What the environment holds of the constant that a definition binds. -/
def bound (site : Site) : Text × Value := (site.name, .scalar site.value)

/-- The environment behind a run that yields a value holds its definitions. -/
theorem env_of_reaches (reached : Reaches .standard [] { env := {} } tokens last) :
    (run .standard { env := {} } tokens).env = .ofList ((sites false tokens).map bound) := by
  have begins : Reaches .standard tokens { env := {} } [] { env := {} } := .refl _
  have accepts : accepted .standard { env := {} } tokens = tokens := by
    simpa [accepted] using reached.accepted_append
  rw [env_run (attentive_of_reaches begins), accepts, definitions, List.map_map]
  rfl

/-- **Constants of a text.** Let no bracket stand between an open paren and the next name or paren
of a text. If the text has a value, then the constants of its index have the names that the
environment behind the evaluation binds, in the same order. The index tells of each one the kind of
the literal and the place of the name in the last definition of that name, and it is the literal of
that definition which the environment holds. -/
theorem constants_of_evaluate (text : Text) (value : Value)
    (bare : HeadsBare (significant (read text))) (h : evaluate text = .ok value) :
    let tokens := significant (read text)
    let env := (Machine.evaluate .standard {} (read text)).env
    (ofText text).constants.keys = env.keys ∧
    (∀ name constant, (ofText text).constants.get? name = some constant ↔
      ∃ site, LastSite tokens name site ∧ ⟨site.kind, placeIn text site.offset⟩ = constant) ∧
    ∀ name held, env.get? name = some held ↔
      ∃ site, LastSite tokens name site ∧ .scalar site.value = held := by
  intro tokens env
  obtain ⟨-, last, reached, -, -⟩ := exists_final h
  have constants : (ofText text).constants
      = .ofList ((sites false tokens).map (known (placeIn text))) := by
    rw [ofText_eq]
    exact constants_of_reaches (placeIn text) reached bare (solid_significant _)
  have bindings : env = .ofList ((sites false tokens).map bound) := env_of_reaches reached
  rw [constants, bindings]
  refine ⟨?_, get?_ofList_map_eq_some_iff fun _ => rfl, get?_ofList_map_eq_some_iff fun _ => rfl⟩
  rw [OrderedMap.keys_ofList, OrderedMap.keys_ofList, List.map_map, List.map_map]
  rfl

/-- A text that defines constants as arguments of a call, one of them once more. -/
def redefiningText : Text := "(def x true)\n(if true (def y false) (7 def x \"b\"))"

theorem constants_of_evaluate_redefiningText :
    HeadsBare (significant (read redefiningText)) ∧
    evaluate redefiningText = .ok (.boolean false) ∧
    (ofText redefiningText).constants.keys
      = (Machine.evaluate .standard {} (read redefiningText)).env.keys ∧
    (ofText redefiningText).constants.get? "x" = some ⟨.string, ⟨1, 30⟩⟩ := by
  have tokens : significant (read redefiningText) = [⟨.openParen, 0⟩, ⟨.identifier "def", 1⟩,
      ⟨.identifier "x", 5⟩, ⟨.literal .boolean (.boolean true), 7⟩, ⟨.closeParen, 11⟩,
      ⟨.openParen, 13⟩, ⟨.identifier "if", 14⟩, ⟨.literal .boolean (.boolean true), 17⟩,
      ⟨.openParen, 22⟩, ⟨.identifier "def", 23⟩, ⟨.identifier "y", 27⟩,
      ⟨.literal .boolean (.boolean false), 29⟩, ⟨.closeParen, 34⟩, ⟨.openParen, 36⟩,
      ⟨.literal .int (.int 7), 37⟩, ⟨.identifier "def", 39⟩, ⟨.identifier "x", 43⟩,
      ⟨.literal .string (.string "b"), 45⟩, ⟨.closeParen, 48⟩, ⟨.closeParen, 49⟩] := by
    rw [read_eq_onePassFrom]
    decide +kernel
  have bare : HeadsBare (significant (read redefiningText)) := by
    rw [tokens]
    decide
  have valued : evaluate redefiningText = .ok (.boolean false) := by
    show (run .standard _ (significant (read redefiningText))).result = _
    rw [tokens]
    rfl
  obtain ⟨keys, constants, -⟩ := constants_of_evaluate redefiningText _ bare valued
  refine ⟨bare, valued, keys, (constants _ _).mpr ⟨⟨"x", 43, .string, .string "b"⟩, ?_, rfl⟩⟩
  rw [tokens]
  exact ⟨[⟨"x", 5, .boolean, .boolean true⟩, ⟨"y", 27, .boolean, .boolean false⟩], [], rfl, rfl,
    by simp⟩

end Index

end PrefixCalc
