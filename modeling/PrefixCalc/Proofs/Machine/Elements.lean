import Mathlib.Data.List.TakeWhile
import PrefixCalc.Proofs.Machine.Nesting

/-!
# Elements of arrays

An array is made of the literals between its brackets, in their order. A literal that stands
where the name of a function is due is dropped inside brackets as anywhere else; so if a name is
due at the open bracket, the elements are the literals behind the first name inside.

`Gathered` says what a state has gathered since the open bracket, and each step keeps it. A
definition that is opened inside brackets is left out: its close paren stands between them, and
of such brackets nothing is said.
-/

namespace PrefixCalc

namespace Token

variable {t : Token} {tokens front inside counted : List Token}

/-! ## §1 Literals -/

/-- The scalar that a token denotes by itself. -/
def scalar? (t : Token) : Option Scalar :=
  match t.lexeme with
  | .literal _ s => some s
  | _ => none

/-- The scalars of the literals among tokens, in order. -/
def literals (tokens : List Token) : List Scalar := tokens.filterMap scalar?

private theorem scalar?_literal {kind : ScalarKind} {s : Scalar}
    (lexeme : t.lexeme = .literal kind s) :
    t.scalar? = some s := by
  rw [scalar?, lexeme]

private theorem scalar?_of_isName (h : t.isName = true) : t.scalar? = none := by
  obtain ⟨name, lexeme⟩ := isName_eq_true_iff.mp h
  rw [scalar?, lexeme]

private theorem literals_append_of_scalar? {s : Scalar} (h : t.scalar? = some s)
    (tokens : List Token) :
    literals (tokens ++ [t]) = literals tokens ++ [s] := by
  simp [literals, h]

private theorem literals_append_of_none (h : t.scalar? = none) (tokens : List Token) :
    literals (tokens ++ [t]) = literals tokens := by
  simp [literals, h]

private theorem forall_mem_concat {P : Token → Prop} (before : ∀ u ∈ tokens, P u) (last : P t) :
    ∀ u ∈ tokens ++ [t], P u :=
  List.forall_mem_append.mpr ⟨before, List.forall_mem_singleton.mpr last⟩

/-! ## §2 Tokens that count -/

/-- The tokens that count for an array, of those `inside` its brackets: all of them, unless a
name is due at the open bracket, behind `front`; then those behind the first name. -/
inductive Counted (front inside : List Token) : List Token → Prop where
  | all (notDue : ¬ FunctionDue front) : Counted front inside inside
  | behind (due : FunctionDue front) (lead : List Token) (head : Token) (rest : List Token)
      (split : inside = lead ++ head :: rest) (plain : ∀ t ∈ lead, t.isName = false)
      (headName : head.isName = true) : Counted front inside rest

theorem Counted.append (h : Counted front inside counted) (t : Token) :
    Counted front (inside ++ [t]) (counted ++ [t]) := by
  cases h with
  | all notDue => exact .all notDue
  | behind due lead head _ split plain headName =>
    exact .behind due lead head (counted ++ [t]) (by simp [split]) plain headName

private theorem Counted.literals_eq (h : Counted front inside counted) :
    (¬ FunctionDue front → literals counted = literals inside) ∧
    (FunctionDue front → literals counted = literals (inside.dropWhile (!·.isName))) := by
  cases h with
  | all notDue => exact ⟨fun _ => rfl, fun due => absurd due notDue⟩
  | behind due lead head _ split plain headName =>
    refine ⟨absurd due, fun _ => ?_⟩
    rw [split, List.dropWhile_append_of_pos (by simpa using plain),
      List.dropWhile_cons_of_neg (by simp [headName]), literals, literals,
      List.filterMap_cons_none (scalar?_of_isName headName)]

end Token

namespace Machine

open Token

variable {registry : Registry} {m next : Machine} {token : Token}
  {front inside before done ahead : List Token} {event : Option Event} {elements : List Scalar}

/-! ## §3 What has been gathered -/

/-- What the array that is being read has gathered from the tokens `inside`, newest first, if
the tokens `front` stand in front of its open bracket. -/
inductive Gathered (m : Machine) (front inside : List Token) : List Scalar → Prop where
  /-- The literals among the tokens that count. -/
  | counted (tokens : List Token) (counts : Counted front inside tokens) (passing : m.passing = 0)
      (expecting : m.expecting = false) : Gathered m front inside (literals tokens).reverse
  /-- Nothing, since a name is due from the open bracket on. -/
  | waiting (due : FunctionDue front) (passing : m.passing = 0) (expecting : m.expecting = true)
      (plain : ∀ t ∈ inside, t.isName = false) : Gathered m front inside []
  /-- Anything, if a definition is or was among the tokens. -/
  | defined (elements : List Scalar) (due : FunctionDue front)
      (opened : m.passing ≠ 0 ∨ parens inside ≠ []) : Gathered m front inside elements

/-- A definition stays among the tokens. -/
theorem Gathered.of_opened {elements' : List Scalar} (due : FunctionDue front)
    (passing : m.passing = 0) (opened : m.passing ≠ 0 ∨ parens inside ≠ []) :
    Gathered next front (inside ++ [token]) elements' := by
  have closed := opened.resolve_left (not_not_intro passing)
  exact .defined _ due (.inr (by simp [closed]))

/-- A token that leaves the array as it is. -/
theorem Gathered.of_quiet (h : Gathered m front inside elements) (passing : m.passing = 0)
    (passing' : next.passing = 0) (expects : next.expecting = m.expecting)
    (noName : m.expecting = true → token.isName = false)
    (noElement : m.expecting = false → token.scalar? = none) :
    Gathered next front (inside ++ [token]) elements := by
  cases h with
  | counted tokens counts _ expecting =>
    rw [← literals_append_of_none (noElement expecting)]
    exact .counted _ (counts.append token) passing' (expects.trans expecting)
  | waiting due _ expecting plain =>
    exact .waiting due passing' (expects.trans expecting)
      (forall_mem_concat plain (noName expecting))
  | defined _ due opened => exact .of_opened due passing opened

/-- A literal in value position is the next element. -/
theorem Gathered.of_collected {s : Scalar} (h : Gathered m front inside elements)
    (passing : m.passing = 0) (expecting : m.expecting = false) (passing' : next.passing = 0)
    (expects : next.expecting = false) (literal : token.scalar? = some s) :
    Gathered next front (inside ++ [token]) (s :: elements) := by
  cases h with
  | counted tokens counts =>
    have grows : s :: (literals tokens).reverse = (literals (tokens ++ [token])).reverse := by
      rw [literals_append_of_scalar? literal, List.reverse_append]
      rfl
    rw [grows]
    exact .counted _ (counts.append token) passing' expects
  | waiting _ _ expecting' =>
    rw [expecting] at expecting'
    cases expecting'
  | defined _ due opened => exact .of_opened due passing opened

/-- The name that was due is that of a function, and the literals behind it count. -/
theorem Gathered.of_head (h : Gathered m front inside elements) (passing : m.passing = 0)
    (expecting : m.expecting = true) (passing' : next.passing = 0)
    (expects : next.expecting = false) (isName : token.isName = true) :
    Gathered next front (inside ++ [token]) elements := by
  cases h with
  | counted _ _ _ expecting' =>
    rw [expecting] at expecting'
    cases expecting'
  | waiting due _ _ plain =>
    exact .counted [] (.behind due inside token [] rfl plain isName) passing' expects
  | defined _ due opened => exact .of_opened due passing opened

/-- A token of a definition that is passed over, the last of which is its close paren. -/
theorem Gathered.of_passed {left : Nat} (h : Gathered m front inside elements)
    (passing : m.passing = left + 1) (owed : Owed (left + 1) (token :: ahead)) :
    Gathered { m with passing := left } front (inside ++ [token]) elements := by
  cases h with
  | counted _ _ idle | waiting _ idle =>
    rw [passing] at idle
    cases idle
  | defined _ due opened =>
    cases owed with
    | close lexeme =>
      have closes : token.isParen = true := isParen_eq_true_iff.mpr (.inr lexeme)
      exact .defined _ due (.inr (by simp [parens_cons_of_isParen closes]))
    | literal | name => exact .defined _ due (.inl (Nat.succ_ne_zero _))

/-- A name is due inside brackets only if one was due at the open bracket. -/
theorem Gathered.functionDue (h : Gathered m front inside elements)
    (expecting : m.expecting = true) : FunctionDue front := by
  cases h with
  | counted _ _ _ idle =>
    rw [expecting] at idle
    cases idle
  | waiting due => exact due
  | defined _ due => exact due

/-! ## §4 Steps -/

/-- The tokens before a state hold the open bracket of the array that is being read, and what it
has gathered since. -/
def Gathers (before : List Token) (m : Machine) : Prop :=
  m.building = true → ∃ front opening inside,
    before = front ++ opening :: inside ∧ opening.lexeme = .openBracket ∧
    (∀ t ∈ inside, t.lexeme ≠ .openBracket ∧ t.lexeme ≠ .closeBracket) ∧
    Gathered m front inside m.buffer

/-- A token between the brackets. -/
theorem Gathers.append (gathers : Gathers before m) (same : next.building = m.building)
    (inner : token.lexeme ≠ .openBracket ∧ token.lexeme ≠ .closeBracket)
    (keeps : ∀ front inside, Gathered m front inside m.buffer →
      Gathered next front (inside ++ [token]) next.buffer) : Gathers (before ++ [token]) next := by
  intro building
  obtain ⟨front, opening, inside, rfl, isOpen, brackets, gathered⟩ :=
    gathers (same.symm.trans building)
  exact ⟨front, opening, inside ++ [token], by simp, isOpen, forall_mem_concat brackets inner,
    keeps front inside gathered⟩

private theorem gathers_of_outside (outside : m.building = false) (before : List Token) :
    Gathers before m := by
  intro building
  rw [outside] at building
  cases building

/-- At an open bracket nothing has been gathered, since the array before it has left nothing behind,
and the state knows whether a name is due. -/
theorem gathers_of_openBracket (attentive : Attentive before m (token :: ahead))
    (buffer : m.buffer = []) (passing : m.passing = 0) (lexeme : token.lexeme = .openBracket) :
    Gathers (before ++ [token]) { m with building := true } := by
  intro _
  refine ⟨before, token, [], rfl, lexeme, List.forall_mem_nil _, ?_⟩
  show Gathered { m with building := true } before [] m.buffer
  rw [buffer]
  by_cases expecting : m.expecting = true
  · exact .waiting (attentive.expecting_iff.mp expecting) passing expecting (List.forall_mem_nil _)
  · have notDue : ¬ FunctionDue before := mt attentive.expecting_iff.mpr expecting
    exact .counted [] (.all notDue) passing (by simpa using expecting)

/-- **What an array has gathered is kept by a step.** -/
theorem gathers_of_step (h : m.step registry token ahead = .ok (next, event))
    (attentive : Attentive before m (token :: ahead))
    (tidy : m.building = false → m.buffer = []) (gathers : Gathers before m) :
    Gathers (before ++ [token]) next := by
  cases transition_of_step h with
  -- Where no array is open behind the token, there is nothing to show.
  | shifted _ _ _ _ _ outside | opened _ _ outside | applied _ _ _ _ _ _ _ _ outside =>
    refine gathers_of_outside ?_ _
    exact outside
  | arrayClosed => exact gathers_of_outside rfl _
  | arrayOpened passing lexeme outside =>
    exact gathers_of_openBracket attentive (tidy outside) passing lexeme
  -- Of the tokens inside the brackets only a literal outside of function position is collected.
  -- Any other one lengthens what stands between them and leaves the buffer alone.
  | passed left passing =>
    have owed := attentive.owed
    rw [passing] at owed
    refine gathers.append rfl ?_ fun _ _ gathered => gathered.of_passed passing owed
    cases owed with
    | close lexeme | literal lexeme | name lexeme => simp [lexeme]
  | blank _ passing lexeme =>
    refine gathers.append rfl (by simp [lexeme]) fun _ _ gathered => ?_
    exact gathered.of_quiet passing passing rfl (fun _ => by simp [isName, lexeme])
      (fun _ => by simp [scalar?, lexeme])
  | dropped _ _ passing expecting lexeme =>
    -- no name, and where one is due no element either
    refine gathers.append rfl (by simp [lexeme]) fun _ _ gathered => ?_
    exact gathered.of_quiet passing passing rfl (fun _ => by simp [isName, lexeme])
      (fun idle => by rw [expecting] at idle; cases idle)
  | referred _ _ passing expecting lexeme =>
    refine gathers.append rfl (by simp [lexeme]) fun _ _ gathered => ?_
    exact gathered.of_quiet passing passing rfl
      (fun due => by rw [expecting] at due; cases due) (fun _ => by simp [scalar?, lexeme])
  | headed _ passing expecting lexeme =>
    refine gathers.append rfl (by simp [lexeme]) fun _ _ gathered => ?_
    exact gathered.of_head passing expecting passing rfl (by simp [isName, lexeme])
  | defined _ _ _ expecting lexeme =>
    -- three tokens are still to be passed over
    refine gathers.append rfl (by simp [lexeme]) fun _ _ gathered => ?_
    exact .defined _ (gathered.functionDue expecting) (.inl (Nat.succ_ne_zero 2))
  | collected _ _ passing expecting lexeme =>
    refine gathers.append rfl (by simp [lexeme]) fun _ _ gathered => ?_
    exact gathered.of_collected passing expecting passing expecting (scalar?_literal lexeme)

/-- **What an array has gathered**, in every state of an evaluation. -/
theorem gathers_of_reaches {env : Environment} (h : Reaches registry ahead { env } done m) :
    Gathers done m := by
  have all : Attentive done m ahead ∧ (m.building = false → m.buffer = []) ∧ Gathers done m := by
    refine h.invariant (P := fun before m ahead => Attentive before m ahead ∧
        (m.building = false → m.buffer = []) ∧ Gathers before m)
      (fun accepted kept => ?_) []
      ⟨⟨.nothing _, ?_, fun _ => rfl⟩, fun _ => rfl, gathers_of_outside rfl _⟩
    · obtain ⟨attentive, tidy, gathers⟩ := kept
      exact ⟨attentive_of_step accepted attentive, buffer_eq_nil_of_step accepted tidy,
        gathers_of_step accepted attentive tidy gathers⟩
    · simp [not_functionDue_nil]
  exact all.2.2

/-! ## §5 The law of elements -/

/-- **Elements of an array.** When an evaluation accepts a close bracket, it makes a value of
an array whose elements are the literals between that bracket and its open bracket, in their
order: all of them if no name of a function is due at the open bracket, and else those behind the
first name between the brackets, if no paren stands there. -/
theorem elements_of_closeBracket (registry : Registry) (env : Environment)
    (done ahead : List Token) (closing : Token) (m next : Machine) (event : Option Event)
    (reached : Reaches registry (closing :: ahead) { env } done m)
    (isClose : closing.lexeme = .closeBracket)
    (accepted : m.step registry closing ahead = .ok (next, event)) :
    ∃ front opening inside elements, done = front ++ opening :: inside ∧
      opening.lexeme = .openBracket ∧
      (∀ t ∈ inside, t.lexeme ≠ .openBracket ∧ t.lexeme ≠ .closeBracket) ∧
      next.values = .array (elements.map .scalar) :: m.values ∧
      (¬ FunctionDue front → elements = literals inside) ∧
      (FunctionDue front → parens inside = [] →
        elements = literals (inside.dropWhile (!·.isName))) := by
  have passing : m.passing = 0 :=
    (attentive_of_reaches reached).owed.eq_zero (by simp [isClose])
      (by simp [isClose, Lexeme.isLiteral]) (by simp [isClose, isName])
  -- only one transition takes a close bracket
  cases transition_of_step accepted with
  | passed left positive =>
    rw [passing] at positive
    cases positive
  | blank _ _ lexeme | defined _ _ _ _ lexeme | headed _ _ _ lexeme | referred _ _ _ _ lexeme
  | dropped _ _ _ _ lexeme | collected _ _ _ _ lexeme | shifted _ _ _ _ lexeme
  | opened _ lexeme | applied _ _ _ _ _ _ _ lexeme | arrayOpened _ lexeme =>
    rw [isClose] at lexeme
    cases lexeme
  | arrayClosed _ _ building =>
    obtain ⟨front, opening, inside, split, isOpen, brackets, gathered⟩ :=
      gathers_of_reaches reached building
    refine ⟨front, opening, inside, m.buffer.reverse, split, isOpen, brackets, rfl, ?_⟩
    -- how the buffer was filled depends on what was due at the open bracket
    generalize m.buffer = newest at gathered
    cases gathered with
    | counted tokens counts =>
      obtain ⟨all, behind⟩ := counts.literals_eq
      rw [List.reverse_reverse]
      exact ⟨all, fun due _ => behind due⟩
    | waiting due _ _ plain =>
      have none : inside.dropWhile (!·.isName) = [] :=
        List.dropWhile_eq_nil_iff.mpr (by simpa using plain)
      exact ⟨absurd due, fun _ _ => by rw [none]; rfl⟩
    | defined _ due opened =>
      -- the close paren of the definition stands between the brackets
      exact ⟨absurd due, fun _ none =>
        absurd none (opened.resolve_left (not_not_intro passing))⟩

/-- The tokens of `([5 length 6 7])`, a name inside brackets that stand where it is due. -/
def headInBrackets : List Token :=
  [⟨.openParen, 0⟩, ⟨.openBracket, 1⟩, ⟨.literal .int (.int 5), 2⟩, ⟨.identifier "length", 4⟩,
   ⟨.literal .int (.int 6), 11⟩, ⟨.literal .int (.int 7), 13⟩, ⟨.closeBracket, 14⟩,
   ⟨.closeParen, 15⟩]

/-- The machine in front of the close bracket. -/
def readingBrackets : Machine :=
  { env := {}, depth := 1, functions := [⟨"length", 4⟩], building := true,
    buffer := [.int 7, .int 6] }

private theorem reaches_readingBrackets :
    Reaches .standard [⟨.closeBracket, 14⟩, ⟨.closeParen, 15⟩] { env := {} }
      (headInBrackets.take 6) readingBrackets :=
  .step rfl (.step rfl (.step rfl (.step rfl (.step rfl (.step rfl (.refl _))))))

/-- **Literals between brackets can be lost**: the array of the tokens above lacks its first. -/
theorem literals_ne_elements :
    ∃ front opening inside closing ahead m next event,
      headInBrackets = front ++ opening :: (inside ++ closing :: ahead) ∧
      opening.lexeme = .openBracket ∧ closing.lexeme = .closeBracket ∧
      (∀ t ∈ inside, t.lexeme ≠ .openBracket ∧ t.lexeme ≠ .closeBracket) ∧
      Reaches .standard (closing :: ahead) { env := {} } (front ++ opening :: inside) m ∧
      m.step .standard closing ahead = .ok (next, event) ∧
      next.values.head? = some (.array [.int 6, .int 7]) ∧
      literals inside = [.int 5, .int 6, .int 7] :=
  ⟨headInBrackets.take 1, ⟨.openBracket, 1⟩, (headInBrackets.drop 2).take 4, ⟨.closeBracket, 14⟩,
    [⟨.closeParen, 15⟩], readingBrackets, _, none, rfl, rfl, rfl, by decide,
    reaches_readingBrackets, rfl, rfl, rfl⟩

theorem elements_of_closeBracket_headInBrackets :
    ∃ front opening inside elements, headInBrackets.take 6 = front ++ opening :: inside ∧
      opening.lexeme = .openBracket ∧
      (∀ t ∈ inside, t.lexeme ≠ .openBracket ∧ t.lexeme ≠ .closeBracket) ∧
      [Value.array [.int 6, .int 7]] = .array (elements.map .scalar) :: readingBrackets.values ∧
      (¬ FunctionDue front → elements = literals inside) ∧
      (FunctionDue front → parens inside = [] →
        elements = literals (inside.dropWhile (!·.isName))) :=
  elements_of_closeBracket .standard {} (headInBrackets.take 6) [⟨.closeParen, 15⟩]
    ⟨.closeBracket, 14⟩ readingBrackets
    { readingBrackets with values := [.array [.int 6, .int 7]], building := false, buffer := [] }
    none
    reaches_readingBrackets rfl rfl

end Machine

end PrefixCalc
