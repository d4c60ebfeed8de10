import PrefixCalc.Proofs.Editor.Heads
import PrefixCalc.Proofs.Editor.Transition
import PrefixCalc.Proofs.Machine.Nesting
import PrefixCalc.Proofs.Token.Matching

/-!
# Balances of the index

The index counts, and matching pairs: an open mark waits for its partner, and a close mark takes the
one that was opened last. Yet the counts are those of the matching. The balance of a text is the
number of marks that still wait in the end, a problem is noted at every close mark that finds no
partner, and at every open bracket inside another one. The only token that is counted in front of
its place is the close paren of a definition, which the index counts at the word and passes over
later; the paren that it closes waits at both places.
-/

namespace PrefixCalc

namespace Index

open Matching

variable {place : Int → Position} {p q : Progress} {index next : Index} {token : Token}
  {before ahead : List Token} {opening closing : Lexeme} {surplus finding : Finding}
  {balance : Int}

/-- Where a finding about the form of the text is noted. -/
def places (index : Index) (finding : Finding) : List Position :=
  (index.structural.filter fun problem => problem.finding = finding).map Problem.place

private theorem places_noteStructural (index : Index) (finding : Finding) (at' : Position) :
    (index.noteStructural finding at').places finding = index.places finding ++ [at'] := by
  simp [places, noteStructural]

private theorem places_noteStructural_of_ne {other : Finding} (h : finding ≠ other) (index : Index)
    (at' : Position) : (index.noteStructural finding at').places other = index.places other := by
  simp [places, noteStructural, h]

/-! ## §1 Counting one kind of mark -/

/-- A count of marks is the number of those that wait, and the problems are noted at those that
found no partner. -/
structure Tally (place : Int → Position) (opening closing : Lexeme) (surplus : Finding)
    (before : List Token) (balance : Int) (index : Index) : Prop where
  balance : balance = (ofTokens opening closing before).pending.length
  surplus : index.places surplus
    = (ofTokens opening closing before).surplus.map fun t => place t.offset

private theorem Tally.of_other (tally : Tally place opening closing surplus before balance index)
    (notOpening : token.lexeme ≠ opening) (notClosing : token.lexeme ≠ closing)
    (same : next.places surplus = index.places surplus) :
    Tally place opening closing surplus (before ++ [token]) balance next where
  balance := by rw [ofTokens_concat, take_other notOpening notClosing, tally.balance]
  surplus := by rw [ofTokens_concat, take_other notOpening notClosing, same, tally.surplus]

private theorem Tally.of_opening (tally : Tally place opening closing surplus before balance index)
    (lexeme : token.lexeme = opening) (same : next.places surplus = index.places surplus) :
    Tally place opening closing surplus (before ++ [token]) (balance + 1) next where
  balance := by
    rw [ofTokens_concat, take, if_pos lexeme, tally.balance]
    rfl
  surplus := by rw [ofTokens_concat, take, if_pos lexeme, same, tally.surplus]

private theorem Tally.of_closing (tally : Tally place opening closing surplus before balance index)
    (apart : opening ≠ closing) (lexeme : token.lexeme = closing) (some : 0 < balance)
    (same : next.places surplus = index.places surplus) :
    Tally place opening closing surplus (before ++ [token]) (balance - 1) next := by
  obtain ⟨counted, noted⟩ := tally
  cases waits : (ofTokens opening closing before).pending with
  | nil =>
    rw [waits] at counted
    exact absurd counted (Int.ne_of_gt some)
  | cons partner others =>
    rw [waits, List.length_cons, Int.natCast_add, Int.cast_ofNat_Int] at counted
    constructor
    · rw [ofTokens_concat, take_closing_cons apart lexeme waits]
      show balance - 1 = (others.length : Int)
      omega
    · rw [ofTokens_concat, take_closing_cons apart lexeme waits, same, noted]

private theorem Tally.of_surplus (tally : Tally place opening closing surplus before balance index)
    (apart : opening ≠ closing) (lexeme : token.lexeme = closing) (none : balance ≤ 0)
    (added : next.places surplus = index.places surplus ++ [place token.offset]) :
    Tally place opening closing surplus (before ++ [token]) 0 next := by
  obtain ⟨counted, noted⟩ := tally
  have nothing : (ofTokens opening closing before).pending = [] :=
    List.eq_nil_of_length_eq_zero (by omega)
  constructor
  · rw [ofTokens_concat, take_closing_nil apart lexeme nothing, nothing]
    rfl
  · rw [ofTokens_concat, take_closing_nil apart lexeme nothing, added, noted, List.map_append]
    rfl

/-! ## §2 Counting in front of a token -/

/-- The brackets are counted, and problems are noted at those that open an array in an array. -/
structure Bracketed (place : Int → Position) (before : List Token) (index : Index) : Prop
    extends Tally place .openBracket .closeBracket .noArrayToClose before index.bracketBalance
      index where
  inner : index.places .arrayInArray
    = (ofTokens .openBracket .closeBracket before).inner.map fun t => place t.offset

/-- What the index has counted in front of some tokens. Inside a definition the close paren has been
counted already. -/
structure Counted (place : Int → Position) (before : List Token) (p : Progress)
    (ahead : List Token) : Prop where
  owed : Machine.Owed p.passing ahead
  idle : p.passing ≠ 0 → p.heading = false
  /-- The paren behind which a function is awaited is open. -/
  opened : p.heading = true → 0 < p.index.parenBalance
  parenBalance_nonneg : 0 ≤ p.index.parenBalance
  parens : Tally place .openParen .closeParen .tooManyClosed before
    (p.index.parenBalance + if p.passing = 0 then 0 else 1) p.index
  brackets : Bracketed place before p.index

private theorem Bracketed.of_other (counted : Bracketed place before index)
    (notBracket : token.isBracket = false)
    (balance : next.bracketBalance = index.bracketBalance)
    (surplus : next.places .noArrayToClose = index.places .noArrayToClose)
    (inner : next.places .arrayInArray = index.places .arrayInArray) :
    Bracketed place (before ++ [token]) next := by
  have notOpening : token.lexeme ≠ .openBracket := fun lexeme => by
    simp [Token.isBracket, lexeme] at notBracket
  have notClosing : token.lexeme ≠ .closeBracket := fun lexeme => by
    simp [Token.isBracket, lexeme] at notBracket
  refine ⟨balance ▸ counted.toTally.of_other notOpening notClosing surplus, ?_⟩
  rw [ofTokens_concat, take_other notOpening notClosing, inner, counted.inner]

/-- In front of a token that belongs to no definition the balance is that of the parens. -/
theorem Counted.tally (counted : Counted place before p ahead) (passing : p.passing = 0) :
    Tally place .openParen .closeParen .tooManyClosed before p.index.parenBalance p.index := by
  have parens := counted.parens
  rwa [if_pos passing, Int.add_zero] at parens

/-- A token that is no paren and no bracket leaves the counts as they are. -/
theorem Counted.of_quiet (counted : Counted place before p (token :: ahead))
    (passing : p.passing = 0) (notParen : token.isParen = false)
    (notBracket : token.isBracket = false) (idle : q.passing = 0)
    (heading : q.heading = true → p.heading = true)
    (parenBalance : q.index.parenBalance = p.index.parenBalance)
    (bracketBalance : q.index.bracketBalance = p.index.bracketBalance)
    (places : ∀ finding, finding ≠ .brokenDefinition →
      q.index.places finding = p.index.places finding) :
    Counted place (before ++ [token]) q ahead where
  owed := idle ▸ .nothing ahead
  idle some := absurd idle some
  opened awaits := parenBalance ▸ counted.opened (heading awaits)
  parenBalance_nonneg := parenBalance ▸ counted.parenBalance_nonneg
  parens := by
    have notOpening : token.lexeme ≠ .openParen := fun lexeme => by
      simp [Token.isParen, lexeme] at notParen
    have notClosing : token.lexeme ≠ .closeParen := fun lexeme => by
      simp [Token.isParen, lexeme] at notParen
    rw [if_pos idle, Int.add_zero, parenBalance]
    exact (counted.tally passing).of_other notOpening notClosing (places _ (by decide))
  brackets :=
    counted.brackets.of_other notBracket bracketBalance (places _ (by decide))
      (places _ (by decide))

/-- What is passed over of a definition: its close paren was counted before. -/
theorem Counted.of_passed {left : Nat} (counted : Counted place before p (token :: ahead))
    (passing : p.passing = left + 1) :
    Counted place (before ++ [token]) { p with passing := left } ahead := by
  have notHeading : p.heading = false := counted.idle (by omega)
  have owed := counted.owed
  have parens := counted.parens
  have nonneg := counted.parenBalance_nonneg
  rw [passing] at owed parens
  rw [if_neg (Nat.succ_ne_zero left)] at parens
  have awaits : p.heading = true → 0 < p.index.parenBalance := fun heading => by
    rw [notHeading] at heading
    cases heading
  cases owed with
  | close lexeme =>
    refine ⟨.nothing ahead, fun some => absurd rfl some, awaits, nonneg, ?_,
      counted.brackets.of_other (by simp [Token.isBracket, lexeme]) rfl rfl rfl⟩
    have closed := parens.of_closing (by decide) lexeme (by omega) rfl
    rw [Int.add_sub_cancel] at closed
    rw [if_pos rfl, Int.add_zero]
    exact closed
  | literal lexeme rest =>
    refine ⟨rest, fun _ => notHeading, awaits, nonneg, ?_,
      counted.brackets.of_other (by simp [Token.isBracket, lexeme]) rfl rfl rfl⟩
    exact parens.of_other (by simp [lexeme]) (by simp [lexeme]) rfl
  | name lexeme rest =>
    refine ⟨rest, fun _ => notHeading, awaits, nonneg, ?_,
      counted.brackets.of_other (by simp [Token.isBracket, lexeme]) rfl rfl rfl⟩
    exact parens.of_other (by simp [lexeme]) (by simp [lexeme]) rfl

/-- A paren leaves the brackets as they are counted. -/
theorem Counted.of_paren (counted : Counted place before p (token :: ahead))
    (paren : token.isParen = true) {heading : Bool}
    (opened : heading = true → 0 < index.parenBalance) (nonneg : 0 ≤ index.parenBalance)
    (same : index.bracketBalance = p.index.bracketBalance)
    (places : ∀ finding, finding ≠ .tooManyClosed →
      index.places finding = p.index.places finding)
    (parens : Tally place .openParen .closeParen .tooManyClosed (before ++ [token])
      index.parenBalance index) :
    Counted place (before ++ [token]) { index, heading } ahead where
  owed := .nothing ahead
  idle some := absurd rfl some
  opened := opened
  parenBalance_nonneg := nonneg
  parens := by
    rw [if_pos rfl, Int.add_zero]
    exact parens
  brackets := by
    have notBracket : token.isBracket = false := by
      rcases Token.isParen_eq_true_iff.mp paren with lexeme | lexeme <;>
        simp [Token.isBracket, lexeme]
    exact counted.brackets.of_other notBracket same (places _ (by decide)) (places _ (by decide))

/-- A bracket leaves the parens as they are counted. -/
theorem Counted.of_bracket (counted : Counted place before p (token :: ahead))
    (passing : p.passing = 0) (bracket : token.isBracket = true)
    (balance : index.parenBalance = p.index.parenBalance)
    (same : index.places .tooManyClosed = p.index.places .tooManyClosed)
    (brackets : Bracketed place (before ++ [token]) index) :
    Counted place (before ++ [token]) { index } ahead where
  owed := .nothing ahead
  idle some := absurd rfl some
  opened awaits := absurd awaits Bool.false_ne_true
  parenBalance_nonneg := balance ▸ counted.parenBalance_nonneg
  parens := by
    have notOpening : token.lexeme ≠ .openParen := fun lexeme => by
      simp [Token.isBracket, lexeme] at bracket
    have notClosing : token.lexeme ≠ .closeParen := fun lexeme => by
      simp [Token.isBracket, lexeme] at bracket
    rw [if_pos rfl, Int.add_zero]
    have unchanged := (counted.tally passing).of_other notOpening notClosing same
    rwa [← balance] at unchanged
  brackets := brackets

/-- At a definition the index counts the close paren that is still to come. -/
private theorem Counted.of_definition {key : Text} {offset : Int} {kind : ScalarKind}
    {constants : OrderedMap Text Constant} (counted : Counted place before p (token :: ahead))
    (passing : p.passing = 0) (heading : p.heading = true)
    (lexeme : token.lexeme = .identifier definitionWord)
    (form : definition? ahead = some (key, offset, kind)) :
    Counted place (before ++ [token])
      { index := { p.index with constants, parenBalance := p.index.parenBalance - 1 },
        passing := 3 } ahead := by
  obtain ⟨_, _, _, _, rest, rfl, rfl, literal, close⟩ := eq_of_definition? form
  have opened := counted.opened heading
  have brackets : Bracketed place (before ++ [token]) p.index :=
    counted.brackets.of_other (by simp [Token.isBracket, lexeme]) rfl rfl rfl
  refine ⟨.name rfl (.literal literal (.close close)), fun _ => rfl,
    fun awaits => absurd awaits Bool.false_ne_true, ?_, ?_,
    ⟨brackets.toTally.balance, brackets.toTally.surplus⟩, brackets.inner⟩
  · -- the paren in front of the word is one that can be closed
    show 0 ≤ p.index.parenBalance - 1
    omega
  · -- what the word takes from the balance is what the definition owes
    rw [if_neg (Nat.succ_ne_zero 2), Int.sub_add_cancel]
    exact (counted.tally passing).of_other (by simp [lexeme]) (by simp [lexeme]) rfl

private theorem apart_brackets : Lexeme.openBracket ≠ .closeBracket := by decide

/-- A bracket that opens an array where none is open has nothing around it. -/
private theorem Bracketed.of_opened (counted : Bracketed place before index)
    (lexeme : token.lexeme = .openBracket) (none : index.bracketBalance ≤ 0) :
    Bracketed place (before ++ [token])
      { index with bracketBalance := index.bracketBalance + 1 } := by
  have nothing : (ofTokens .openBracket .closeBracket before).pending = [] := by
    have balance := counted.balance
    exact List.eq_nil_of_length_eq_zero (by omega)
  refine ⟨counted.toTally.of_opening lexeme rfl, ?_⟩
  rw [ofTokens_concat, take, if_pos lexeme, if_pos nothing]
  exact counted.inner

/-- A bracket that opens an array in another one is noted as such, and counted all the same. -/
private theorem Bracketed.of_nested (counted : Bracketed place before index)
    (lexeme : token.lexeme = .openBracket) (some : 0 < index.bracketBalance) :
    Bracketed place (before ++ [token])
      ({ index with bracketBalance := index.bracketBalance + 1 }.noteStructural .arrayInArray
        (place token.offset)) := by
  have waits : (ofTokens .openBracket .closeBracket before).pending ≠ [] := by
    intro none
    have balance := counted.balance
    rw [none] at balance
    exact absurd balance (Int.ne_of_gt some)
  refine ⟨counted.toTally.of_opening lexeme
    (places_noteStructural_of_ne (by decide : Finding.arrayInArray ≠ _) _ _), ?_⟩
  rw [ofTokens_concat, take, if_pos lexeme, if_neg waits, places_noteStructural, List.map_append]
  exact congrArg (· ++ _) counted.inner

private theorem Bracketed.of_closed (counted : Bracketed place before index)
    (lexeme : token.lexeme = .closeBracket) (some : 0 < index.bracketBalance) :
    Bracketed place (before ++ [token])
      { index with bracketBalance := index.bracketBalance - 1 } := by
  refine ⟨counted.toTally.of_closing apart_brackets lexeme some rfl, ?_⟩
  rw [ofTokens_concat, inner_take_closing apart_brackets lexeme]
  exact counted.inner

/-- A bracket that closes no array is noted as such, and no bracket waits behind it. -/
private theorem Bracketed.of_overclosed (counted : Bracketed place before index)
    (lexeme : token.lexeme = .closeBracket) (none : index.bracketBalance ≤ 0) :
    Bracketed place (before ++ [token])
      ({ index with bracketBalance := 0 }.noteStructural .noArrayToClose
        (place token.offset)) := by
  refine ⟨counted.toTally.of_surplus apart_brackets lexeme none
    (places_noteStructural _ _ _), ?_⟩
  rw [ofTokens_concat, inner_take_closing apart_brackets lexeme]
  exact (places_noteStructural_of_ne (by decide : Finding.noArrayToClose ≠ _) _ _).trans
    counted.inner

/-- **Counting**: a token that is taken keeps the counts those of the matching. -/
theorem counted_of_transition (h : Transition place p token ahead q)
    (counted : Counted place before p (token :: ahead)) :
    Counted place (before ++ [token]) q ahead := by
  have nonneg := counted.parenBalance_nonneg
  have unawaited {balance : Int} (awaits : false = true) : 0 < balance :=
    absurd awaits Bool.false_ne_true
  cases h with
  | passed left passing => exact counted.of_passed passing
  -- Neither a paren nor a bracket: whatever is noted of such a token, it is not the counts, and
  -- the only problem of form is a broken definition, of which the matching knows nothing.
  | ignored _ _ passing _ lexeme =>
    exact counted.of_quiet passing (by simp [Token.isParen, lexeme])
      (by simp [Token.isBracket, lexeme]) passing id rfl rfl fun _ _ => rfl
  | headed _ passing _ lexeme | unknown _ passing _ lexeme | referred _ passing _ lexeme
  | undefined _ passing _ lexeme =>
    exact counted.of_quiet passing (by simp [Token.isParen, lexeme])
      (by simp [Token.isBracket, lexeme]) rfl (absurd · Bool.false_ne_true) rfl rfl
      fun _ _ => rfl
  | quiet passing lexeme =>
    have notMark : token.isParen = false ∧ token.isBracket = false := by
      cases said : token.lexeme with
      | literal _ _ | whitespace _ => simp [Token.isParen, Token.isBracket, said]
      | _ =>
        rw [said] at lexeme
        rcases lexeme with blank | ⟨-, literal⟩
        · cases blank
        · cases literal
    exact counted.of_quiet passing notMark.1 notMark.2 rfl (absurd · Bool.false_ne_true) rfl rfl
      fun _ _ => rfl
  | broken passing _ lexeme =>
    exact counted.of_quiet passing (by simp [Token.isParen, lexeme])
      (by simp [Token.isBracket, lexeme]) rfl (absurd · Bool.false_ne_true) rfl rfl
      fun _ other => places_noteStructural_of_ne other.symm _ _
  | defined key offset kind passing heading lexeme form =>
    exact counted.of_definition passing heading lexeme form
  -- Parens: the counter and the matching see the same number of open ones, so both find a partner
  -- for a close paren or both find none.
  | opened passing lexeme =>
    refine counted.of_paren (Token.isParen_eq_true_iff.mpr (.inl lexeme)) (fun _ => ?_) ?_ rfl
      (fun _ _ => rfl) ((counted.tally passing).of_opening lexeme rfl)
    · show 0 < p.index.parenBalance + 1
      omega
    · show 0 ≤ p.index.parenBalance + 1
      omega
  | closed passing lexeme some =>
    refine counted.of_paren (Token.isParen_eq_true_iff.mpr (.inr lexeme)) unawaited ?_ rfl
      (fun _ _ => rfl) ((counted.tally passing).of_closing (by decide) lexeme some rfl)
    show 0 ≤ p.index.parenBalance - 1
    omega
  | overclosed passing lexeme none =>
    -- the balance starts again at zero, where it was already
    exact counted.of_paren (Token.isParen_eq_true_iff.mpr (.inr lexeme)) unawaited (Int.le_refl 0)
      rfl (fun _ other => places_noteStructural_of_ne other.symm _ _)
      ((counted.tally passing).of_surplus (by decide) lexeme none (places_noteStructural _ _ _))
  -- Brackets: each of the two ways to take a bracket is told apart by the balance, and hence by
  -- what waits.
  | arrayOpened passing lexeme none =>
    exact counted.of_bracket passing (by simp [Token.isBracket, lexeme]) rfl rfl
      (counted.brackets.of_opened lexeme none)
  | arrayNested passing lexeme some =>
    exact counted.of_bracket passing (by simp [Token.isBracket, lexeme]) rfl
      (places_noteStructural_of_ne (by decide : Finding.arrayInArray ≠ _) _ _)
      (counted.brackets.of_nested lexeme some)
  | arrayClosed passing lexeme some =>
    exact counted.of_bracket passing (by simp [Token.isBracket, lexeme]) rfl rfl
      (counted.brackets.of_closed lexeme some)
  | arrayOverclosed passing lexeme none =>
    exact counted.of_bracket passing (by simp [Token.isBracket, lexeme]) rfl
      (places_noteStructural_of_ne (by decide : Finding.noArrayToClose ≠ _) _ _)
      (counted.brackets.of_overclosed lexeme none)

/-! ## §3 The balances of a text -/

/-- The balances of an index, and its problems with parens and brackets, are what matching the
tokens of the text leaves over. -/
structure Balances (text : Text) (index : Index) : Prop where
  /-- The balance of parens is the number of open parens without a partner. -/
  parenBalance : index.parenBalance
    = (ofTokens .openParen .closeParen (Token.read text)).pending.length
  /-- A paren is called one too many exactly if it closes none. -/
  tooManyClosed : index.places .tooManyClosed
    = (ofTokens .openParen .closeParen (Token.read text)).surplus.map (placeIn text ·.offset)
  /-- The balance of brackets is the number of open brackets without a partner. -/
  bracketBalance : index.bracketBalance
    = (ofTokens .openBracket .closeBracket (Token.read text)).pending.length
  /-- A bracket is said to close no array exactly if it closes none. -/
  noArrayToClose : index.places .noArrayToClose
    = (ofTokens .openBracket .closeBracket (Token.read text)).surplus.map (placeIn text ·.offset)
  /-- An array is said to be nested exactly if it is opened while another one is open. -/
  arrayInArray : index.places .arrayInArray
    = (ofTokens .openBracket .closeBracket (Token.read text)).inner.map (placeIn text ·.offset)

private theorem counted_start (place : Int → Position) (tokens : List Token) :
    Counted place [] {} tokens where
  owed := .nothing tokens
  idle some := absurd rfl some
  opened awaits := absurd awaits Bool.false_ne_true
  parenBalance_nonneg := Int.le_refl 0
  parens := ⟨rfl, rfl⟩
  brackets := ⟨⟨rfl, rfl⟩, rfl⟩

/-- Behind the last token no definition is unfinished. -/
theorem passing_eq_zero_of_counted {tokens : List Token} (counted : Counted place tokens p []) :
    p.passing = 0 := by
  have owed := counted.owed
  generalize p.passing = passing at owed
  cases owed
  rfl

private theorem counted_scanned (place : Int → Position) (tokens : List Token) (n : Nat) :
    Counted place (tokens.take n) (scanned place {} n tokens) (tokens.drop n) :=
  scanned_invariant counted_of_transition n [] (counted_start place tokens)

/-- **The balances of the index are exact**, and no count is ever negative: not behind any number
of tokens of the text, and so not behind any turn of the loop over them. -/
theorem balances_ofText (text : Text) :
    (ofText text).Balances text ∧
    (∀ n, let behind := scanned (placeIn text) {} n (Token.significant (Token.read text))
      0 ≤ behind.index.parenBalance ∧ 0 ≤ behind.index.bracketBalance) ∧
    ∀ n, let index := (turned (placeIn text) {} n (Token.significant (Token.read text))).1
      0 ≤ index.parenBalance ∧ 0 ≤ index.bracketBalance := by
  have counted (n : Nat) := counted_scanned (placeIn text) (Token.significant (Token.read text)) n
  have nonneg (n : Nat) :
      let behind := scanned (placeIn text) {} n (Token.significant (Token.read text))
      0 ≤ behind.index.parenBalance ∧ 0 ≤ behind.index.bracketBalance := by
    refine ⟨(counted n).parenBalance_nonneg, ?_⟩
    rw [(counted n).brackets.balance]
    exact Int.natCast_nonneg _
  refine ⟨?_, nonneg, fun n => ?_⟩
  · have all := counted (Token.significant (Token.read text)).length
    rw [List.take_length, List.drop_length] at all
    have parens := all.tally (passing_eq_zero_of_counted all)
    have brackets := all.brackets
    rw [← scan_eq_scanned] at parens brackets
    have parenTokens := ofTokens_significant .openParen .closeParen rfl rfl (Token.read text)
    have bracketTokens := ofTokens_significant .openBracket .closeBracket rfl rfl (Token.read text)
    rw [ofText_eq]
    constructor
    · rw [← parenTokens]
      exact parens.balance
    · rw [← parenTokens]
      exact parens.surplus
    · rw [← bracketTokens]
      exact brackets.balance
    · rw [← bracketTokens]
      exact brackets.surplus
    · rw [← bracketTokens]
      exact brackets.inner
  · -- what is known behind a turn is known behind the tokens that it takes
    obtain ⟨m, behind, -⟩ := exists_between_turned (placeIn text) n
      (between_start {} (Token.significant (Token.read text)))
    rw [← behind.index]
    exact nonneg m

end Index

end PrefixCalc
