import PrefixCalc.Editor.Cursor
import PrefixCalc.Proofs.Token.Matching

/-!
# The innermost open call

An editor looks for the open call backwards, with one counter for the close parens that it has
passed. What it stops at is the last open paren that is left over when the parens of the line are
paired from left to right, and only the text behind that paren matters to what it finds.
-/

namespace PrefixCalc

namespace Cursor

open Text

variable {line front back tail name rest more : Text} {c : CodePoint}

/-! ## §1 The parens of a text -/

/-- The paren that a character is, as a token at `offset`. -/
def paren? (c : CodePoint) (offset : Nat) : Option Token :=
  if c = '(' then some ⟨.openParen, offset⟩
  else if c = ')' then some ⟨.closeParen, offset⟩
  else none

/-- The parens among the characters of a text, those inside strings as well. -/
def parens (text : Text) : List Token := text.zipIdx.filterMap fun (c, offset) => paren? c offset

/-- The parens of a text, paired from left to right. -/
def matching (text : Text) : Matching := .ofTokens .openParen .closeParen (parens text)

/-- Every paren of the text has its partner there. -/
def Paired (text : Text) : Prop := (matching text).pending = [] ∧ (matching text).surplus = []

instance (text : Text) : Decidable (Paired text) := inferInstanceAs (Decidable (_ ∧ _))

theorem parens_append (front back : Text) :
    parens (front ++ back) = parens front ++ (parens back).map (Token.shift front.length) := by
  have moved (c : CodePoint) (offset : Nat) :
      paren? c (front.length + offset) = (paren? c offset).map (Token.shift front.length) := by
    unfold paren?
    split
    · simp [Token.shift, Int.add_comm]
    split
    · simp [Token.shift, Int.add_comm]
    · rfl
  have later : back.zipIdx front.length
      = back.zipIdx.map fun p => (p.1, front.length + p.2) := List.zipIdx_eq_map_add
  rw [parens, List.zipIdx_append, List.filterMap_append, Nat.zero_add, later, List.filterMap_map,
    parens, parens, List.map_filterMap]
  simp only [Function.comp_def, moved]

theorem pending_append (front back : Text) :
    (matching (front ++ back)).pending
      = (matching back).pending.map (Token.shift front.length)
        ++ (matching front).pending.drop (matching back).surplus.length := by
  have apart : Lexeme.openParen ≠ .closeParen := by decide
  rw [matching, parens_append, (Matching.ofTokens_append apart _ _).1,
    (Matching.ofTokens_shift ..).1, (Matching.ofTokens_shift ..).2, List.length_map]
  rfl

private theorem surplus_append (front back : Text) :
    (matching (front ++ back)).surplus
      = (matching front).surplus
        ++ ((matching back).surplus.map (Token.shift front.length)).drop
            (matching front).pending.length := by
  have apart : Lexeme.openParen ≠ .closeParen := by decide
  rw [matching, parens_append, (Matching.ofTokens_append apart _ _).2,
    (Matching.ofTokens_shift ..).2]
  rfl

/-- Behind a paired text what waited in front of it still waits. -/
theorem pending_append_of_paired (paired : Paired back) (front : Text) :
    (matching (front ++ back)).pending = (matching front).pending := by
  rw [pending_append, paired.1, paired.2]
  rfl

private theorem pending_concat_open (front : Text) :
    (matching (front ++ [.char '('])).pending
      = ⟨.openParen, front.length⟩ :: (matching front).pending := by
  have first : (matching [.char '(']).pending = [⟨.openParen, 0⟩] := rfl
  have none : (matching [.char '(']).surplus = [] := rfl
  simp [pending_append, first, none, Token.shift]

private theorem pending_concat_close (front : Text) :
    (matching (front ++ [.char ')'])).pending = (matching front).pending.tail := by
  rw [pending_append]
  exact List.drop_one

theorem Paired.append (first : Paired front) (second : Paired back) : Paired (front ++ back) := by
  refine ⟨(pending_append_of_paired second front).trans first.1, ?_⟩
  rw [surplus_append, first.1, first.2, second.2]
  rfl

theorem paired_singleton (notOpen : c ≠ .char '(') (notClose : c ≠ .char ')') : Paired [c] := by
  have none : parens [c] = [] := by simp [parens, paren?, notOpen, notClose]
  rw [Paired, matching, none]
  exact ⟨rfl, rfl⟩

private theorem pending_concat_other (notOpen : c ≠ .char '(') (notClose : c ≠ .char ')')
    (front : Text) :
    (matching (front ++ [c])).pending = (matching front).pending :=
  pending_append_of_paired (paired_singleton notOpen notClose) front

theorem paired_of_not_mem {text : Text} (notOpened : .char '(' ∉ text)
    (notClosed : .char ')' ∉ text) : Paired text := by
  induction text with
  | nil => exact ⟨rfl, rfl⟩
  | cons c text ih =>
    have first : Paired [c] := paired_singleton (List.ne_of_not_mem_cons notOpened).symm
      (List.ne_of_not_mem_cons notClosed).symm
    exact first.append
      (ih (List.not_mem_of_not_mem_cons notOpened) (List.not_mem_of_not_mem_cons notClosed))

/-- Parens around a paired text are partners of each other. -/
theorem Paired.enclosed (inside : Paired back) : Paired (.char '(' :: (back ++ [.char ')'])) := by
  rw [← List.cons_append, ← List.singleton_append]
  constructor
  · rw [pending_concat_close, pending_append_of_paired inside]
    rfl
  · have opening : (matching [.char '(']).surplus = [] := rfl
    have waits : (matching ([.char '('] ++ back)).pending = [⟨.openParen, 0⟩] :=
      pending_append_of_paired inside _
    rw [surplus_append, surplus_append, opening, inside.2, waits]
    rfl

/-! ## §2 Searching backwards -/

/-- **The search backwards finds the last open paren that is left over**, or the one that has
as many of these behind it as close parens were passed before. -/
theorem tailOfCall?_reverse (front : Text) (closed : Nat) (tail : Text) :
    tailOfCall? front.reverse closed tail
      = (matching front).pending[closed]?.map fun opening =>
          (front ++ tail).drop (opening.offset.toNat + 1) := by
  -- from the last character of the text on, since the search starts there
  induction front using List.reverseRecOn generalizing closed tail with
  | nil => rfl
  | append_singleton front c ih =>
    rw [List.reverse_append, List.reverse_singleton, List.singleton_append, List.append_assoc,
      List.singleton_append]
    unfold tailOfCall?
    split
    · rename_i closes
      subst closes
      rw [ih, pending_concat_close, List.getElem?_tail]
    split
    · rename_i opens
      subst opens
      rw [pending_concat_open]
      cases closed with
      | zero => simp
      | succ fewer => rw [List.getElem?_cons_succ]; exact ih fewer _
    · rename_i notClose notOpen
      rw [ih, pending_concat_other notOpen notClose]

/-! ## §3 The open call -/

/-- `tail` stands behind the last open paren of the line that has no partner. -/
def BehindLast (line tail : Text) : Prop :=
  ∃ front others, line = front ++ .char '(' :: tail ∧
    (matching line).pending = ⟨.openParen, front.length⟩ :: others

/-- An open paren that waits stands where its token says. -/
theorem exists_split_of_mem_pending {t : Token} (h : t ∈ (matching line).pending) :
    ∃ front tail, line = front ++ .char '(' :: tail ∧ t = ⟨.openParen, front.length⟩ := by
  induction line using List.reverseRecOn with
  | nil => cases h
  | append_singleton line c ih =>
    -- one that waited before stands where it stood
    have before (member : t ∈ (matching line).pending) :
        ∃ front tail, line ++ [c] = front ++ .char '(' :: tail ∧
          t = ⟨.openParen, front.length⟩ := by
      obtain ⟨front, tail, rfl, place⟩ := ih member
      exact ⟨front, tail ++ [c], by simp, place⟩
    by_cases opens : c = .char '('
    · subst opens
      rw [pending_concat_open] at h
      rcases List.mem_cons.mp h with rfl | member
      · exact ⟨line, [], rfl, rfl⟩
      · exact before member
    by_cases closes : c = .char ')'
    · subst closes
      rw [pending_concat_close] at h
      exact before (List.mem_of_mem_tail h)
    · rw [pending_concat_other opens closes] at h
      exact before h

theorem exists_behindLast (some : (matching line).pending ≠ []) : ∃ tail, BehindLast line tail := by
  obtain ⟨opening, others, waits⟩ := List.exists_cons_of_ne_nil some
  obtain ⟨front, tail, split, rfl⟩ :=
    exists_split_of_mem_pending (waits ▸ List.mem_cons_self : opening ∈ (matching line).pending)
  exact ⟨tail, front, others, split, waits⟩

/-- The last open paren without a partner is the one behind which all parens are paired. -/
theorem behindLast_iff :
    BehindLast line tail ↔ ∃ front, line = front ++ .char '(' :: tail ∧ Paired tail := by
  constructor
  · rintro ⟨front, others, rfl, waits⟩
    refine ⟨front, rfl, ?_⟩
    rw [← List.singleton_append, ← List.append_assoc, pending_append, pending_concat_open] at waits
    -- what waits at the back comes first in the list, and only a paired tail leaves nothing there
    cases inside : (matching tail).pending with
    | cons t more =>
      -- the paren that waits last would stand further back
      obtain ⟨front', tail', -, rfl⟩ :=
        exists_split_of_mem_pending (inside ▸ List.mem_cons_self : t ∈ (matching tail).pending)
      rw [inside] at waits
      have place := congrArg Token.offset (List.cons.inj waits).1
      simp [Token.shift] at place
      omega
    | nil =>
      rw [inside, List.map_nil, List.nil_append] at waits
      cases closed : (matching tail).surplus with
      | nil => exact ⟨inside, closed⟩
      | cons t more =>
        -- the open paren would have a partner, and another one in front of it would wait last
        rw [closed, List.length_cons, List.drop_succ_cons] at waits
        have member : ⟨.openParen, front.length⟩ ∈ (matching front).pending :=
          List.mem_of_mem_drop (waits ▸ List.mem_cons_self)
        obtain ⟨front', tail', split, same⟩ := exists_split_of_mem_pending member
        have place := congrArg Token.offset same
        have length := congrArg List.length split
        simp at place length
        omega
  · rintro ⟨front, rfl, paired⟩
    refine ⟨front, (matching front).pending, rfl, ?_⟩
    rw [← List.singleton_append, ← List.append_assoc, pending_append_of_paired paired,
      pending_concat_open]

theorem BehindLast.append (last : BehindLast line tail) (paired : Paired more) :
    BehindLast (line ++ more) (tail ++ more) := by
  obtain ⟨front, rfl, inside⟩ := behindLast_iff.mp last
  exact behindLast_iff.mpr ⟨front, by simp, inside.append paired⟩

/-- The name behind an open paren: the first run of letters, if only blanks stand in front of it. -/
def callee (tail : Text) : Text := (tail.dropWhile isBlank).takeWhile isNameLetter

/-- What stands behind that name. -/
def behindCallee (tail : Text) : Text := (tail.dropWhile isBlank).dropWhile isNameLetter

theorem openCall?_of_behindLast (last : BehindLast line tail) :
    openCall? line
      = if (callee tail).isEmpty then none
        else some (callee tail, (scan argumentLength (behindCallee tail)).length) := by
  obtain ⟨front, others, rfl, waits⟩ := last
  have found : tailOfCall? (front ++ .char '(' :: tail).reverse 0 [] = some tail := by
    rw [tailOfCall?_reverse, waits]
    simp
  rw [openCall?, found]
  rfl

theorem openCall?_of_pending_eq_nil (none : (matching line).pending = []) :
    openCall? line = Option.none := by
  rw [openCall?, tailOfCall?_reverse, none]
  rfl

/-- A text is optional blanks, `name`, which is a run of letters that goes no further, and
`behind`. -/
structure Leads (tail name behind : Text) : Prop where
  split : ∃ blanks, (∀ c ∈ blanks, isBlank c = true) ∧ tail = blanks ++ (name ++ behind)
  some : name ≠ []
  letters : ∀ c ∈ name, isNameLetter c = true
  ends : ∀ c ∈ behind.head?, isNameLetter c = false

theorem not_isBlank_of_isNameLetter (h : isNameLetter c = true) : isBlank c = false := by
  have letter := (isNameLetter_iff c).mp h
  cases blank : isBlank c with
  | false => rfl
  | true =>
    have := lt_or_lt_of_isBlank blank
    omega

private theorem dropWhile_blanks {blanks : Text} (all : ∀ c ∈ blanks, isBlank c = true)
    (letter : isNameLetter c = true) (rest : Text) :
    (blanks ++ c :: rest).dropWhile isBlank = c :: rest := by
  rw [List.dropWhile_append_of_pos all, List.dropWhile_cons_of_neg]
  rw [not_isBlank_of_isNameLetter letter]
  decide

private theorem callee_eq_nil_iff :
    callee tail = [] ↔ ¬ ∃ blanks c rest, tail = blanks ++ c :: rest ∧
      (∀ b ∈ blanks, isBlank b = true) ∧ isNameLetter c = true := by
  rw [callee, takeWhile_eq_nil_iff_head?]
  constructor
  · rintro none ⟨blanks, c, rest, rfl, all, letter⟩
    rw [dropWhile_blanks all letter] at none
    rw [none c rfl] at letter
    cases letter
  · intro none c first
    obtain ⟨rest, split⟩ := List.head?_eq_some_iff.mp first
    have whole := List.takeWhile_append_dropWhile (p := isBlank) (l := tail)
    rw [split] at whole
    refine Bool.eq_false_iff.mpr fun letter => none ⟨_, c, rest, whole.symm, ?_, letter⟩
    exact fun b => List.mem_takeWhile_imp

private theorem Leads.dropWhile_eq (leads : Leads tail name behind) :
    tail.dropWhile isBlank = name ++ behind := by
  obtain ⟨⟨blanks, all, rfl⟩, some, letters, -⟩ := leads
  obtain ⟨c, others, rfl⟩ := List.exists_cons_of_ne_nil some
  exact dropWhile_blanks all (letters c List.mem_cons_self) (others ++ behind)

private theorem Leads.callee_eq (leads : Leads tail name behind) : callee tail = name := by
  rw [callee, leads.dropWhile_eq, takeWhile_append_of_stops (.inr leads.ends)]
  exact List.takeWhile_eq_self_iff.mpr leads.letters

private theorem Leads.behindCallee_eq (leads : Leads tail name behind) :
    behindCallee tail = behind := by
  rw [behindCallee, leads.dropWhile_eq, dropWhile_append_of_stops (.inr leads.ends),
    List.dropWhile_eq_nil_iff.mpr leads.letters, List.nil_append]

theorem openCall?_of_leads (last : BehindLast line tail) (leads : Leads tail name behind) :
    openCall? line = some (name, (scan argumentLength behind).length) := by
  rw [openCall?_of_behindLast last, leads.callee_eq, leads.behindCallee_eq, if_neg]
  rw [List.isEmpty_iff]
  exact leads.some

/-- **The innermost open call.** If the parens of a line are paired from left to right and no open
paren is left over, then no call is open. Otherwise only the text behind the last one that is left
over matters: no call is open if that text does not start with a letter, optional blanks aside, and
else the first run of letters names the function. Paired text at the end of a line changes nothing
in that name, once a blank follows it. -/
theorem openCall?_innermost (line : Text) :
    ((matching line).pending = [] → openCall? line = none) ∧
    ((matching line).pending ≠ [] → ∃ tail, BehindLast line tail) ∧
    ∀ tail, BehindLast line tail →
      openCall? line = openCall? (.char '(' :: tail) ∧
      (openCall? line = none ↔ ¬ ∃ blanks c rest, tail = blanks ++ c :: rest ∧
        (∀ b ∈ blanks, isBlank b = true) ∧ isNameLetter c = true) ∧
      (∀ name behind, Leads tail name behind → (openCall? line).map Prod.fst = some name) ∧
      ∀ name rest more, Leads tail name (.char ' ' :: rest) → Paired more →
        (openCall? (line ++ more)).map Prod.fst = some name := by
  refine ⟨openCall?_of_pending_eq_nil, exists_behindLast, fun tail last => ⟨?_, ?_, ?_, ?_⟩⟩
  · obtain ⟨front, -, paired⟩ := behindLast_iff.mp last
    have alone : BehindLast (.char '(' :: tail) tail := behindLast_iff.mpr ⟨[], rfl, paired⟩
    rw [openCall?_of_behindLast last, openCall?_of_behindLast alone]
  · rw [openCall?_of_behindLast last, ← callee_eq_nil_iff]
    cases callee tail <;> simp
  · intro name behind leads
    rw [openCall?_of_leads last leads]
    rfl
  · intro name rest more leads paired
    have longer : Leads (tail ++ more) name (.char ' ' :: (rest ++ more)) := by
      obtain ⟨⟨blanks, all, split⟩, some, letters, ends⟩ := leads
      exact ⟨⟨blanks, all, by simp [split]⟩, some, letters, ends⟩
    rw [openCall?_of_leads (last.append paired) longer]
    rfl

/-- A line on which two calls are closed and one paren closes nothing. -/
def crowdedLine : Text := ") (if (equals 1 (minus 2 1)) "

theorem openCall?_innermost_crowdedLine :
    BehindLast crowdedLine "if (equals 1 (minus 2 1)) " ∧
    Leads "if (equals 1 (minus 2 1)) " "if" " (equals 1 (minus 2 1)) " ∧
    Paired "[(x)] " ∧
    (openCall? (crowdedLine ++ "[(x)] ")).map Prod.fst = some (ofString "if") := by
  have paired : Paired "[(x)] " := by decide +kernel
  have last : BehindLast crowdedLine "if (equals 1 (minus 2 1)) " :=
    behindLast_iff.mpr ⟨") ", rfl, by decide +kernel⟩
  have leads : Leads "if (equals 1 (minus 2 1)) " "if" " (equals 1 (minus 2 1)) " :=
    ⟨⟨[], by decide, rfl⟩, by decide, by decide, by decide⟩
  obtain ⟨-, -, found⟩ := openCall?_innermost crowdedLine
  exact ⟨last, leads, paired, (found _ last).2.2.2 _ _ _ leads paired⟩

end Cursor

end PrefixCalc
