import PrefixCalc.Editor.Index
import PrefixCalc.Proofs.Machine.Transition
import PrefixCalc.Proofs.Token.Paren

/-!
# Steps of the index

The loop that makes the index of a document jumps: an open paren is taken together with the name
behind it, and the word of a definition together with its tokens. Here the same index is made one
token at a time, with a note of what is awaited and what is still to be passed over, and the two
are proved equal. So the index walks beside the machine: it takes every token of a document, the
machine those up to the first one that it refuses, and a relation between the two that every
accepted token keeps holds at the end of every run.
-/

namespace PrefixCalc

/-- The tokens up to the next paren or name: literals, brackets and white space. -/
def Token.isPlain (t : Token) : Bool := !t.isParen && !t.isName

theorem Token.isPlain_eq_true_iff {t : Token} :
    t.isPlain = true ↔ t.isParen = false ∧ t.isName = false := by
  rw [isPlain, Bool.and_eq_true, Bool.not_eq_true', Bool.not_eq_true']

namespace Index

/-! ## §1 A token at a time -/

/-- The index so far, whether the name of a function is awaited, and how many tokens of a
recognised definition are still to be passed over. -/
structure Progress where
  index : Index := {}
  heading : Bool := false
  passing : Nat := 0

/-- Behind the name of a function and what it takes with it. -/
def Progress.behindHead (taken : Index × Nat) : Progress := { index := taken.1, passing := taken.2 }

/-- Behind a token outside function position. -/
def takeOther (index : Index) (token : Token) (place : Position) : Progress where
  index := index.takeToken token place
  heading :=
    match token.lexeme with
    | .openParen => true
    | _ => false

/-- The effect of a token, given the tokens after it. -/
def step (place : Int → Position) (p : Progress) (token : Token) (ahead : List Token) :
    Progress :=
  match p.passing with
  | left + 1 => { p with passing := left }
  | 0 =>
    if p.heading then
      match token.lexeme with
      | .literal .. => { p with index := p.index.noteIgnored (place token.offset) }
      | .identifier name => .behindHead (takeHead place p.index name token.offset ahead)
      | _ => takeOther p.index token (place token.offset)
    else takeOther p.index token (place token.offset)

/-- The effect of all tokens. -/
def scan (place : Int → Position) (p : Progress) : List Token → Index
  | [] => p.index
  | token :: ahead => scan place (step place p token ahead) ahead

/-- What is known behind the first `n` tokens, or behind all of them if there are fewer. -/
def scanned (place : Int → Position) : Progress → Nat → List Token → Progress
  | p, 0, _ | p, _, [] => p
  | p, n + 1, token :: ahead => scanned place (step place p token ahead) n ahead

variable {place : Int → Position} {p : Progress} {index : Index} {token : Token}
  {ahead tokens : List Token}

theorem step_of_passing {left : Nat} (passing : p.passing = left + 1) :
    step place p token ahead = { p with passing := left } := by
  rw [step, passing]

theorem step_of_head {name : Text} (passing : p.passing = 0) (heading : p.heading = true)
    (lexeme : token.lexeme = .identifier name) :
    step place p token ahead = .behindHead (takeHead place p.index name token.offset ahead) := by
  rw [step, passing]
  dsimp only
  rw [if_pos heading, lexeme]

/-- The word of a definition, with a whole definition behind it. -/
theorem step_of_definition {key : Text} {offset : Int} {kind : ScalarKind}
    (passing : p.passing = 0) (heading : p.heading = true)
    (lexeme : token.lexeme = .identifier definitionWord)
    (form : definition? ahead = some (key, offset, kind)) :
    step place p token ahead =
      { index := { p.index with
          constants := p.index.constants.insert key ⟨kind, place offset⟩
          parenBalance := p.index.parenBalance - 1 }
        passing := 3 } := by
  rw [step_of_head passing heading lexeme, takeHead, if_pos rfl, takeDefinition, form]
  rfl

theorem step_of_ignored {kind : ScalarKind} {value : Scalar} (passing : p.passing = 0)
    (heading : p.heading = true) (lexeme : token.lexeme = .literal kind value) :
    step place p token ahead = { p with index := p.index.noteIgnored (place token.offset) } := by
  rw [step, passing]
  dsimp only
  rw [if_pos heading, lexeme]

/-- A token is taken by itself where no function is expected, and any token is that could not
stand there. -/
theorem step_of_other (passing : p.passing = 0)
    (other : p.heading = true → token.isName = false ∧ token.lexeme.isLiteral = false) :
    step place p token ahead = takeOther p.index token (place token.offset) := by
  rw [step, passing]
  dsimp only
  cases heading : p.heading with
  | false => rw [if_neg Bool.false_ne_true]
  | true =>
    obtain ⟨notName, notLiteral⟩ := other heading
    cases lexeme : token.lexeme with
    | identifier name =>
      rw [Token.isName, lexeme] at notName
      cases notName
    | literal kind value =>
      rw [lexeme] at notLiteral
      cases notLiteral
    | whitespace _ | openParen | closeParen | openBracket | closeBracket => rw [if_pos rfl]

private theorem exists_literal_of_isLiteral (literal : token.lexeme.isLiteral = true) :
    ∃ kind value, token.lexeme = .literal kind value := by
  unfold Lexeme.isLiteral at literal
  split at literal
  · exact ⟨_, _, by assumption⟩
  · cases literal

/-- A literal changes at most what is known of ignored values. -/
theorem exists_step_of_isLiteral (place : Int → Position) (ahead : List Token)
    (passing : p.passing = 0) (literal : token.lexeme.isLiteral = true) :
    ∃ ignoredValues, step place p token ahead
      = { p with index := { p.index with ignoredValues } } := by
  obtain ⟨kind, value, lexeme⟩ := exists_literal_of_isLiteral literal
  by_cases heading : p.heading = true
  · exact ⟨_, step_of_ignored passing heading lexeme⟩
  · obtain ⟨index, _, _⟩ := p
    obtain rfl : _ = false := Bool.not_eq_true _ ▸ heading
    obtain rfl : _ = 0 := passing
    refine ⟨index.ignoredValues, ?_⟩
    rw [step_of_other rfl (fun awaited => absurd awaited Bool.false_ne_true), takeOther,
      takeToken, lexeme]

/-- A token that is no name changes the balances and what is known of the form of the text. A
function is expected behind it if it is an open paren. -/
theorem exists_takeOther_of_not_isName (index : Index) (at' : Position)
    (notName : token.isName = false) :
    ∃ structural parenBalance bracketBalance, takeOther index token at'
      = { index := { index with structural, parenBalance, bracketBalance }
          heading := token.lexeme = .openParen } := by
  unfold takeOther takeToken
  cases lexeme : token.lexeme with
  | identifier name =>
    rw [Token.isName, lexeme] at notName
    cases notName
  | openParen | literal _ _ | whitespace _ => exact ⟨_, _, _, rfl⟩
  | closeParen | openBracket | closeBracket =>
    dsimp only
    split <;> exact ⟨_, _, _, rfl⟩

@[simp] theorem scanned_nil (place : Int → Position) (p : Progress) (n : Nat) :
    scanned place p n [] = p := by
  cases n <;> rfl

/-- The index of the tokens is what is known behind the last one. -/
theorem scan_eq_scanned (place : Int → Position) (p : Progress) (tokens : List Token) :
    scan place p tokens = (scanned place p tokens.length tokens).index := by
  induction tokens generalizing p with
  | nil => rfl
  | cons token ahead ih => exact ih (step place p token ahead)

private theorem scanned_add (place : Int → Position) (p : Progress) (m n : Nat)
    (tokens : List Token) :
    scanned place p (m + n) tokens
      = scanned place (scanned place p m tokens) n (tokens.drop m) := by
  induction m generalizing p tokens with
  | zero =>
    rw [Nat.zero_add]
    cases tokens <;> rfl
  | succ m ih =>
    rw [Nat.succ_add]
    cases tokens with
    | nil => rw [scanned_nil, scanned_nil, List.drop_nil, scanned_nil]
    | cons token ahead => exact ih _ ahead

/-- The index of the tokens is that of those behind the first `n`, from what is known there. -/
theorem scan_scanned (place : Int → Position) (p : Progress) (n : Nat) (tokens : List Token) :
    scan place (scanned place p n tokens) (tokens.drop n) = scan place p tokens := by
  induction n generalizing p tokens with
  | zero => cases tokens <;> rfl
  | succ n ih =>
    cases tokens with
    | nil => rfl
    | cons token ahead => exact ih _ ahead

/-! ## §2 Definitions -/

/-- The tokens of a definition, which the index recognises by them. -/
theorem eq_of_definition? {key : Text} {offset : Int} {kind : ScalarKind}
    (form : definition? ahead = some (key, offset, kind)) :
    ∃ name literal close value rest, ahead = name :: literal :: close :: rest ∧
      name = ⟨.identifier key, offset⟩ ∧ literal.lexeme = .literal kind value ∧
      close.lexeme = .closeParen := by
  unfold definition? at form
  split at form
  · cases form
    exact ⟨_, _, _, _, _, rfl, rfl, rfl, rfl⟩
  · cases form

/-- The index knows a definition when it sees one: it is told by the same three tokens. -/
theorem definition?_of_definition {offset : Int} {key : Text} {bound : Scalar}
    (form : Machine.definition offset ahead = .ok (key, bound)) :
    ∃ keyOffset kind, definition? ahead = some (key, keyOffset, kind) := by
  obtain ⟨⟨_, keyOffset⟩, ⟨_, _⟩, ⟨_, _⟩, kind, after, rfl, rfl, rfl, rfl⟩ :=
    Machine.definition_eq_ok form
  exact ⟨keyOffset, kind, rfl⟩

theorem definition?_eq_none {offset : Int} {failure : Failure}
    (broken : Machine.definition offset ahead = .error failure) : definition? ahead = none := by
  unfold definition?
  split
  · -- these three tokens make up a definition
    cases broken
  · rfl

/-! ## §3 The loop -/

/-- What the loop knows behind its first `n` turns, or behind all of them if there are fewer, and
the tokens that are left. -/
def turned (place : Int → Position) (index : Index) : Nat → List Token → Index × List Token
  | 0, tokens => (index, tokens)
  | _ + 1, [] => (index, [])
  | n + 1, token :: ahead =>
    turned place (index.turn place token ahead).1 n (index.turn place token ahead).2

/-- The loop ends behind as many turns as there are tokens, if not before. -/
theorem collect_eq_turned (place : Int → Position) (index : Index) (n : Nat) (tokens : List Token)
    (all : tokens.length ≤ n) : turned place index n tokens = (collect place index tokens, []) := by
  induction n generalizing index tokens with
  | zero =>
    obtain rfl := List.length_eq_zero_iff.mp (Nat.le_zero.mp all)
    rw [turned, collect]
  | succ n ih =>
    cases tokens with
    | nil => rw [turned, collect]
    | cons token ahead =>
      have fewer := length_turn_le place index token ahead
      rw [List.length_cons] at all
      rw [turned, collect]
      exact ih _ _ (by omega)

/-- What is known token by token is what the loop knows between two turns: nothing is still to be
passed over, and if the name of a function is awaited, then none stands next. -/
structure Between (p : Progress) (index : Index) (rest : List Token) : Prop where
  index : p.index = index
  passing : p.passing = 0
  heading : p.heading = true → ∀ t ∈ rest.head?, t.isName = false ∧ t.lexeme.isLiteral = false

/-- A definition is all there when it is recognised. -/
theorem takeHead_le (place : Int → Position) (index : Index) (name : Text) (offset : Int)
    (ahead : List Token) : (index.takeHead place name offset ahead).2 ≤ ahead.length := by
  unfold takeHead
  split
  · unfold takeDefinition
    split
    · rename_i form
      obtain ⟨_, _, _, _, rest, rfl, -, -, -⟩ := eq_of_definition? form
      exact Nat.le_add_left 3 rest.length
    · exact Nat.zero_le _
  · split <;> exact Nat.zero_le _

/-- The tokens of a definition are passed over one by one. -/
theorem scanned_passing (place : Int → Position) (index : Index) (n : Nat) (tokens : List Token)
    (enough : n ≤ tokens.length) :
    scanned place { index, passing := n } n tokens = { index } := by
  induction n generalizing tokens with
  | zero => cases tokens <;> rfl
  | succ left ih =>
    cases tokens with
    | nil => cases enough
    | cons token ahead => exact ih ahead (Nat.le_of_succ_le_succ enough)

/-- So are the literals that the loop looks over. -/
theorem exists_scanned_skipLiterals (place : Int → Position) (index : Index)
    (tokens : List Token) :
    ∃ n, scanned place { index, heading := true } n tokens
        = { index := (index.skipLiterals place tokens).1, heading := true } ∧
      tokens.drop n = (index.skipLiterals place tokens).2 := by
  induction tokens generalizing index with
  | nil => exact ⟨0, rfl, rfl⟩
  | cons token ahead ih =>
    rw [skipLiterals]
    split
    · rename_i literal
      obtain ⟨kind, value, lexeme⟩ := exists_literal_of_isLiteral literal
      obtain ⟨n, reached, left⟩ := ih (index.noteIgnored (place token.offset))
      refine ⟨n + 1, ?_, left⟩
      rw [scanned, step_of_ignored rfl rfl lexeme]
      exact reached
    · exact ⟨0, rfl, rfl⟩

private theorem not_isLiteral_of_skipLiterals (place : Int → Position) (index : Index)
    (tokens : List Token) :
    ∀ t ∈ (index.skipLiterals place tokens).2.head?, t.lexeme.isLiteral = false := by
  induction tokens generalizing index with
  | nil => exact nofun
  | cons token ahead ih =>
    rw [skipLiterals]
    split
    · exact ih _
    · rename_i notLiteral
      rintro t ⟨⟩
      exact Bool.not_eq_true _ ▸ notLiteral

/-- What follows an open paren takes as many steps as the loop takes tokens. -/
theorem exists_between_takeCall (place : Int → Position) (index : Index) (tokens : List Token) :
    ∃ n, Between (scanned place { index, heading := true } n tokens)
        (index.takeCall place tokens).1 (index.takeCall place tokens).2 ∧
      tokens.drop n = (index.takeCall place tokens).2 := by
  obtain ⟨n, reached, left⟩ := exists_scanned_skipLiterals place index tokens
  have stops := not_isLiteral_of_skipLiterals place index tokens
  rw [takeCall]
  generalize index.skipLiterals place tokens = skipped at reached left stops
  obtain ⟨next, rest⟩ := skipped
  dsimp only at reached left stops ⊢
  split
  · rename_i name offset behind
    -- a step for the name, and one for each token that it takes with it
    have enough := takeHead_le place next name offset behind
    generalize taken : next.takeHead place name offset behind = head at enough
    refine ⟨n + (head.2 + 1), ?_, ?_⟩
    · have named : step place { index := next, heading := true } ⟨.identifier name, offset⟩ behind
          = .behindHead head := by
        rw [step_of_head rfl rfl rfl, taken]
      rw [scanned_add, reached, left, scanned, named, Progress.behindHead,
        scanned_passing place _ _ _ enough]
      exact ⟨rfl, rfl, fun awaits => absurd awaits Bool.false_ne_true⟩
    · rw [← List.drop_drop, left, List.drop_succ_cons]
  · rename_i noName
    refine ⟨n, ⟨by rw [reached], by rw [reached], fun _ t next => ⟨?_, stops t next⟩⟩, left⟩
    -- a name would have been taken
    unfold Token.isName
    split
    · rename_i name lexeme
      obtain ⟨behind, rfl⟩ := List.head?_eq_some_iff.mp next
      exact (noName name t.offset behind (by rw [← lexeme])).elim
    · rfl

/-- **A turn is made of steps.** -/
theorem exists_between_turn (place : Int → Position) (between : Between p index (token :: ahead)) :
    ∃ n, Between (scanned place p n (token :: ahead)) (index.turn place token ahead).1
        (index.turn place token ahead).2 ∧
      (token :: ahead).drop n = (index.turn place token ahead).2 := by
  have taken : step place p token ahead = takeOther index token (place token.offset) := by
    rw [step_of_other between.passing fun awaits => between.heading awaits token rfl,
      between.index]
  unfold turn
  cases lexeme : token.lexeme with
  | openParen =>
    have opened : takeOther index token (place token.offset)
        = { index := index.takeToken token (place token.offset), heading := true } := by
      rw [takeOther, lexeme]
    obtain ⟨n, reached, left⟩ :=
      exists_between_takeCall place (index.takeToken token (place token.offset)) ahead
    refine ⟨n + 1, ?_, left⟩
    rw [scanned, taken, opened]
    exact reached
  | closeParen | openBracket | closeBracket | identifier _ | literal _ _ | whitespace _ =>
    refine ⟨1, ?_, rfl⟩
    have single : scanned place p 1 (token :: ahead)
        = takeOther index token (place token.offset) := by
      rw [scanned, taken]
      cases ahead <;> rfl
    rw [single, takeOther, lexeme]
    exact ⟨rfl, rfl, fun awaits => absurd awaits Bool.false_ne_true⟩

/-- Whatever the loop knows between two turns is known behind some number of tokens. -/
theorem exists_between_turned (place : Int → Position) (n : Nat)
    (between : Between p index tokens) :
    ∃ m, Between (scanned place p m tokens) (turned place index n tokens).1
        (turned place index n tokens).2 ∧
      tokens.drop m = (turned place index n tokens).2 := by
  induction n generalizing p index tokens with
  | zero => exact ⟨0, by cases tokens <;> exact between, rfl⟩
  | succ n ih =>
    cases tokens with
    | nil => exact ⟨0, between, rfl⟩
    | cons token ahead =>
      obtain ⟨first, reached, left⟩ := exists_between_turn place between
      obtain ⟨more, reached', left'⟩ := ih reached
      rw [← left] at reached' left'
      refine ⟨first + more, ?_, ?_⟩
      · rw [scanned_add, turned, ← left]
        exact reached'
      · rw [← List.drop_drop, turned, ← left]
        exact left'

theorem between_start (index : Index) (tokens : List Token) : Between { index } index tokens :=
  ⟨rfl, rfl, fun awaits => absurd awaits Bool.false_ne_true⟩

/-- **The loop collects what the tokens change one at a time.** -/
theorem collect_eq_scan (place : Int → Position) (index : Index) (tokens : List Token) :
    collect place index tokens = scan place { index } tokens := by
  obtain ⟨n, reached, left⟩ :=
    exists_between_turned place tokens.length (between_start index tokens)
  rw [collect_eq_turned place index _ tokens (Nat.le_refl _)] at reached left
  rw [← scan_scanned place _ n, left, scan, reached.index]

/-- The place of a token of a text. -/
abbrev placeIn (text : Text) (offset : Int) : Position := .ofOffset text offset.toNat

/-- The index of a text, from what its tokens change one at a time. -/
theorem ofText_eq (text : Text) :
    ofText text = { scan (placeIn text) {} (Token.significant (Token.read text)) with
      unmatchedQuote := text.count (.char '"') % 2 == 1 } := by
  rw [ofText, collect_eq_scan]

/-! ## §4 Beside the machine -/

/-- **Side by side**: a relation between the machine and the index that every accepted token
keeps holds behind a run, and the index goes on from there with the tokens that are left. -/
theorem exists_scan_of_reaches (place : Int → Position) {registry : Registry}
    {m last : Machine} {done : List Token}
    {R : List Token → Machine → Progress → List Token → Prop}
    (keeps : ∀ {before m p token ahead next event},
      m.step registry token ahead = .ok (next, event) → R before m p (token :: ahead) →
      R (before ++ [token]) next (step place p token ahead) ahead)
    (h : Machine.Reaches registry ahead m done last) (before : List Token)
    (start : R before m p (done ++ ahead)) :
    ∃ q, scan place p (done ++ ahead) = scan place q ahead ∧ R (before ++ done) last q ahead := by
  induction h generalizing before p with
  | refl m => exact ⟨p, rfl, by rwa [List.append_nil]⟩
  | step accepted later ih =>
    obtain ⟨q, scanned, kept⟩ := ih _ (keeps accepted start)
    rw [List.append_assoc, List.singleton_append] at kept
    exact ⟨q, scanned, kept⟩

end Index

end PrefixCalc
