import Mathlib.Data.List.Forall2
import PrefixCalc.Proofs.Token.OnePass

/-!
# Overlaps

The kinds take their turns in any order, some of them never and some of them twice. Each one
offers all of its matches, and of these a span survives exactly if it shares no character with a
span that survived before it. So the survivors lie apart, and in the order of their offsets they
are the tokens, one for each.
-/

namespace PrefixCalc

namespace Candidate

open Text TokenKind

variable {kinds : List TokenKind} {kind : TokenKind} {text front back : Text}
  {a b c : Candidate} {earlier offered offered' spans spans' new : List Candidate}

/-! ## §1 What a kind finds -/

/-- The matches of a kind as a search through the text from left to right finds them. -/
structure Found (kind : TokenKind) (text : Text) (found : List Candidate) : Prop where
  /-- A match is not empty, it stands in the text where it says, and it is as long as the kind
  reads there. -/
  exact : ∀ c ∈ found, c.kind = kind ∧ c.text ≠ [] ∧
    ∃ before behind, text = before ++ (c.text ++ behind) ∧ before.length = c.start ∧
      kind.matchLength (c.text ++ behind) = c.text.length
  /-- A match ends before the next one starts. -/
  apart : found.Pairwise fun a b => a.stop ≤ b.start
  /-- A place at which the kind reads something lies in a match. -/
  complete : ∀ before behind, text = before ++ behind → kind.matchLength behind ≠ 0 →
    ∃ c ∈ found, c.start ≤ before.length ∧ before.length < c.stop

private theorem found_ofKind (kind : TokenKind) (text : Text) :
    Found kind text (ofKind kind text) := by
  have short := matchLength_le_length kind
  refine ⟨fun c member => ?_, pairwise_ofKind kind text, fun before behind split some => ?_⟩
  · obtain ⟨found, inScan, rfl⟩ := List.mem_map.mp member
    obtain ⟨before, behind, split, place, length⟩ := exists_split_of_mem_scanFrom short inScan
    rw [Nat.zero_add] at place
    exact ⟨rfl, ne_nil_of_mem_scanFrom inScan, before, behind, split, place.symm, length⟩
  · obtain ⟨found, member, place⟩ := exists_mem_scanFrom short 0 0 split (Nat.zero_le _) some
    rw [Nat.zero_add] at place
    exact ⟨_, List.mem_map_of_mem member, place⟩

/-! ## §2 What a match says -/

/-- What a kind makes of the characters that it matched; every match can be read as a lexeme. -/
inductive Reads : TokenKind → Text → Lexeme → Prop where
  | string (inside : Text) (plain : ∀ c ∈ inside, c ≠ .char '"') :
      Reads (.literal .string) (.char '"' :: (inside ++ [.char '"']))
        (.literal .string (.string inside))
  | blank (run : Text) (all : ∀ c ∈ run, isBlank c = true) : Reads .whitespace run (.whitespace run)
  | mark (m : Mark) : Reads m.kind [m.char] m.lexeme
  | decimal (whole fraction : Text) (wholeDigits : ∀ c ∈ whole, isDigit c = true)
      (fractionDigits : ∀ c ∈ fraction, isDigit c = true) (some : whole ≠ [] ∨ fraction ≠ []) :
      Reads (.literal .float) (whole ++ .char '.' :: fraction)
        (.literal .float (.float (Numeral.toBinary64 { whole, fraction } false)))
  | digits (run : Text) (all : ∀ c ∈ run, isDigit c = true) :
      Reads (.literal .int) run (.literal .int (.ofDigits run))
  | truth (b : Bool) :
      Reads (.literal .boolean) (Scalar.booleanText b) (.literal .boolean (.boolean b))
  | name (run : Text) (all : ∀ c ∈ run, isNameLetter c = true) :
      Reads .identifier run (.identifier run)

/-- What is taken of a text is its front if it is as long. -/
theorem eq_of_length {taken rest : Text} (split : front ++ back = taken ++ rest)
    (h : taken.length = front.length) : front = taken :=
  (List.append_inj split h.symm).1

private theorem ne_zero_of_eq_length {n : Nat} (nonempty : front ≠ []) (h : n = front.length) :
    n ≠ 0 := by
  rw [h]
  exact mt List.length_eq_zero_iff.mp nonempty

private theorem forall_mem_of_runLength {p : CodePoint → Bool}
    (h : runLength p (front ++ back) = front.length) : ∀ c ∈ front, p c = true := by
  obtain ⟨split, all, -⟩ := Piece.run_split p (front ++ back)
  rwa [← eq_of_length split h] at all

private theorem reads_string (nonempty : front ≠ [])
    (h : stringLength (front ++ back) = front.length) :
    Reads (.literal .string) front (.ofText (.literal .string) front) := by
  obtain ⟨inside, rest, split, plain, length⟩ :=
    exists_quoted_of_stringLength (ne_zero_of_eq_length nonempty h)
  have taken : front = .char '"' :: (inside ++ [.char '"']) := by
    have split' : front ++ back = .char '"' :: (inside ++ [.char '"']) ++ rest := by
      rw [split, List.cons_append, List.append_assoc, List.singleton_append]
    refine eq_of_length split' ?_
    rw [← h, length, List.length_cons, List.length_append, List.length_singleton]
  have quoted : Lexeme.ofText (.literal .string) front = .literal .string (.string inside) := by
    rw [taken]
    simp [Lexeme.ofText]
  rw [quoted, taken]
  exact .string inside plain

private theorem reads_decimal (nonempty : front ≠ [])
    (h : decimalLength (front ++ back) = front.length) :
    Reads (.literal .float) front (.ofText (.literal .float) front) := by
  obtain ⟨whole, fraction, rest, split, wholeDigits, fractionDigits, some, length⟩ :=
    exists_decimal_of_decimalLength (ne_zero_of_eq_length nonempty h)
  have taken : front = whole ++ .char '.' :: fraction := by
    have split' : front ++ back = whole ++ .char '.' :: fraction ++ rest := by
      rw [split, List.append_assoc, List.cons_append]
    refine eq_of_length split' ?_
    rw [← h, length, List.length_append, List.length_cons]
  rw [taken, Lexeme.ofText, Piece.scanPlain_decimal wholeDigits fractionDigits]
  exact .decimal whole fraction wholeDigits fractionDigits some

private theorem reads_truth (nonempty : front ≠ [])
    (h : booleanLength (front ++ back) = front.length) :
    Reads (.literal .boolean) front (.ofText (.literal .boolean) front) := by
  have some := List.length_pos_iff.mpr nonempty
  rw [booleanLength] at h
  split at h
  · rename_i found
    obtain ⟨behind, split⟩ := List.isPrefixOf_iff_prefix.mp found
    obtain rfl := eq_of_length split.symm h
    exact .truth true
  · split at h
    · rename_i found
      obtain ⟨behind, split⟩ := List.isPrefixOf_iff_prefix.mp found
      obtain rfl := eq_of_length split.symm h
      exact .truth false
    · omega

private theorem reads_mark (m : Mark) (nonempty : front ≠ [])
    (h : charLength m.char (front ++ back) = front.length) : front = [m.char] := by
  cases front with
  | nil => exact absurd rfl nonempty
  | cons c front =>
    rw [List.cons_append, charLength] at h
    split at h
    · rename_i same
      have alone : front = [] := by simpa using h.symm
      rw [alone, same]
    · cases h

private theorem reads_of_matchLength (nonempty : front ≠ [])
    (h : kind.matchLength (front ++ back) = front.length) :
    Reads kind front (.ofText kind front) := by
  cases kind with
  | whitespace => exact .blank front (forall_mem_of_runLength h)
  | identifier => exact .name front (forall_mem_of_runLength h)
  | openParen => exact reads_mark .openParen nonempty h ▸ .mark .openParen
  | closeParen => exact reads_mark .closeParen nonempty h ▸ .mark .closeParen
  | openBracket => exact reads_mark .openBracket nonempty h ▸ .mark .openBracket
  | closeBracket => exact reads_mark .closeBracket nonempty h ▸ .mark .closeBracket
  | literal kind =>
    cases kind with
    | int => exact .digits front (forall_mem_of_runLength h)
    | string => exact reads_string nonempty h
    | float => exact reads_decimal nonempty h
    | boolean => exact reads_truth nonempty h

/-! ## §3 Turns -/

/-- Two spans share a character. -/
def Shares (a b : Candidate) : Prop :=
  ∃ place, (a.start ≤ place ∧ place < a.stop) ∧ b.start ≤ place ∧ place < b.stop

/-- What is yielded of the spans that are offered when those in `earlier` were yielded before: a
span is left out exactly if it shares a character with one that was yielded before it. -/
inductive Yields : List Candidate → List Candidate → List Candidate → Prop where
  | done (earlier : List Candidate) : Yields earlier [] []
  | left {earlier offered spans : List Candidate} {c : Candidate}
      (taken : ∃ b ∈ earlier, c.Shares b) (later : Yields earlier offered spans) :
      Yields earlier (c :: offered) spans
  | kept {earlier offered spans : List Candidate} {c : Candidate}
      (free : ∀ b ∈ earlier, ¬ c.Shares b) (later : Yields (earlier ++ [c]) offered spans) :
      Yields earlier (c :: offered) (c :: spans)

/-- The matches of all kinds in the order in which they are tried. -/
def offers (kinds : List TokenKind) (text : Text) : List Candidate :=
  kinds.flatMap fun kind => ofKind kind text

private theorem overlaps_iff_shares (someA : a.start < a.stop) (someB : b.start < b.stop) :
    a.overlaps b = true ↔ a.Shares b := by
  rw [overlaps, Bool.and_eq_true, decide_eq_true_eq, decide_eq_true_eq]
  constructor
  · rintro ⟨before, behind⟩
    -- the span that starts later starts inside the other one
    exact ⟨max a.start b.start, by omega, by omega⟩
  · rintro ⟨place, inA, inB⟩
    omega

theorem Yields.append (first : Yields earlier offered spans)
    (second : Yields (earlier ++ spans) offered' spans') :
    Yields earlier (offered ++ offered') (spans ++ spans') := by
  induction first with
  | done => rwa [List.append_nil] at second
  | left taken _ ih => exact .left taken (ih second)
  | kept free _ ih =>
    rw [List.append_cons] at second
    exact .kept free (ih second)

/-- What is yielded hangs on what is offered and on nothing else. -/
theorem Yields.unique (first : Yields earlier offered spans)
    (second : Yields earlier offered spans') : spans = spans' := by
  induction first generalizing spans' with
  | done =>
    cases second
    rfl
  | left taken _ ih =>
    obtain ⟨b, member, shares⟩ := taken
    cases second with
    | left _ later => exact ih later
    | kept free _ => exact absurd shares (free b member)
  | kept free _ ih =>
    cases second with
    | left taken _ =>
      obtain ⟨b, member, shares⟩ := taken
      exact absurd shares (free b member)
    | kept _ later => rw [ih later]

/-- In a turn, matches that lie apart never stand in each other's way. -/
theorem yields_turn {kept : List Candidate} (someKept : ∀ b ∈ kept, b.start < b.stop)
    (someNew : ∀ c ∈ new, c.start < c.stop) (apart : new.Pairwise fun a b => a.stop ≤ b.start) :
    ∀ mine, (∀ b ∈ mine, ∀ c ∈ new, b.stop ≤ c.start) →
      Yields (kept ++ mine) new (new.filter fun c => !kept.any c.overlaps) := by
  induction new with
  | nil => exact fun mine _ => .done _
  | cons c new ih =>
    intro mine before
    obtain ⟨some, someNew⟩ := List.forall_mem_cons.mp someNew
    obtain ⟨first, apart⟩ := List.pairwise_cons.mp apart
    have before' : ∀ b ∈ mine, ∀ d ∈ new, b.stop ≤ d.start := fun b inMine d later =>
      before b inMine d (List.mem_cons_of_mem c later)
    have overlaps (b : Candidate) (member : b ∈ kept) :=
      overlaps_iff_shares some (someKept b member)
    -- the match is left out if it overlaps what earlier turns kept, and only then
    cases taken : kept.any c.overlaps with
    | true =>
      obtain ⟨b, member, shared⟩ := List.any_eq_true.mp taken
      rw [List.filter_cons_of_neg (by simp [taken])]
      refine .left ⟨b, List.mem_append_left _ member, (overlaps b member).mp shared⟩ ?_
      exact ih someNew apart mine before'
    | false =>
      rw [List.filter_cons_of_pos (by simp [taken])]
      refine .kept (fun b member shared => ?_) ?_
      · rcases List.mem_append.mp member with member | member
        · have free := List.any_eq_false.mp taken b member
          exact free ((overlaps b member).mpr shared)
        · -- the earlier matches of the turn are over when this one starts
          obtain ⟨place, inC, inB⟩ := shared
          have := before b member c List.mem_cons_self
          omega
      · rw [List.append_assoc]
        refine ih someNew apart (mine ++ [c]) fun b inMine d later => ?_
        rcases List.mem_append.mp inMine with inMine | same
        · exact before' b inMine d later
        · rw [List.mem_singleton.mp same]
          exact first d later

/-- The kinds take their turns one behind the other. -/
theorem yields_select (kinds : List TokenKind) (text : Text) :
    Yields [] (offers kinds text) (select kinds text) := by
  induction kinds using List.reverseRecOn with
  | nil => exact .done []
  | append_singleton kinds kind ih =>
    rw [select_append_singleton, offers, List.flatMap_append, List.flatMap_singleton, keepApart]
    refine ih.append ?_
    have someKept : ∀ b ∈ select kinds text, b.start < b.stop := fun b member =>
      (select_bounds member).1
    have someNew : ∀ c ∈ ofKind kind text, c.start < c.stop := fun c member =>
      (ofKind_bounds member).2.1
    have turn := yields_turn someKept someNew (pairwise_ofKind kind text) [] (List.forall_mem_nil _)
    rwa [List.append_nil] at turn

/-! ## §4 Tokens -/

/-- What becomes of a text when the kinds take their turns: the spans that survive, in the order
in which they are taken, and the tokens. -/
structure Resolves (kinds : List TokenKind) (text : Text) (spans : List Candidate)
    (tokens : List Token) : Prop where
  /-- Each kind offers the matches that a search through the text finds. -/
  found : ∀ kind, Found kind text (ofKind kind text)
  /-- A span that is offered is left out exactly if a character of it is taken. -/
  yields : Yields [] (offers kinds text) spans
  /-- Nothing else survives in this way. -/
  only : ∀ spans', Yields [] (offers kinds text) spans' → spans' = spans
  /-- A span is a match of one of the kinds. -/
  matched : ∀ c ∈ spans, c.kind ∈ kinds ∧ c ∈ ofKind c.kind text
  /-- A span is not empty and lies in the text. -/
  inside : ∀ c ∈ spans, c.start < c.stop ∧ c.stop ≤ text.length
  /-- No two spans share a character. -/
  apart : spans.Pairwise fun a b => ¬ a.Shares b
  /-- The tokens are in the order of their offsets. -/
  ordered : tokens.Pairwise fun a b => a.offset < b.offset
  /-- Each span becomes one token, of its kind and at its place, which says what the kind makes
  of its characters. -/
  tokens : ∃ order, order.Perm spans ∧ List.Forall₂ (fun c t =>
    t.offset = c.start ∧ t.kind = c.kind ∧ Reads c.kind c.text t.lexeme) order tokens

private theorem reads_of_mem_ofKind (h : c ∈ ofKind kind text) :
    Reads kind c.text (.ofText kind c.text) := by
  obtain ⟨-, some, before, behind, -, -, length⟩ := (found_ofKind kind text).exact c h
  exact reads_of_matchLength some length

/-- **Precedence for any order of kinds.** Whichever kinds take their turns and in which order,
a match survives exactly if it shares no character with a match that survived before it, and the
tokens are the survivors in the order of their offsets, each read by its kind. -/
theorem resolves_readWith (kinds : List TokenKind) (text : Text) :
    Resolves kinds text (select kinds text) (Token.readWith kinds text) := by
  have bounds : ∀ c ∈ inOrder kinds text, c.start < c.stop := fun c member =>
    (inOrder_bounds member).1
  have yields := yields_select kinds text
  refine ⟨fun kind => found_ofKind kind text, yields, fun spans' other => other.unique yields,
    fun c => mem_ofKind_of_mem_select, fun c => select_bounds, ?_, ?_, ?_⟩
  · refine (pairwise_select kinds text).imp_of_mem fun {a b} first second free shares => ?_
    have some := (select_bounds first).1
    have some' := (select_bounds second).1
    rw [(overlaps_iff_shares some some').mpr shares] at free
    cases free
  · refine List.pairwise_map.mpr ((pairwise_inOrder kinds text).imp_of_mem ?_)
    intro a b first _ before
    have some := bounds a first
    simp only [toToken]
    omega
  · refine ⟨inOrder kinds text, inOrder_perm kinds text, ?_⟩
    refine List.forall₂_map_right_iff.mpr (List.forall₂_same.mpr fun c member => ?_)
    have matched := (mem_ofKind_of_mem_select ((inOrder_perm kinds text).mem_iff.mp member)).2
    exact ⟨rfl, Lexeme.kind_ofText c.kind c.text, reads_of_mem_ofKind matched⟩

end Candidate

/-! ## §5 Tokens in their text -/

namespace Token

open Candidate

variable {t : Token} {text : Text}

theorem pairwise_read (text : Text) : (read text).Pairwise fun a b => a.offset < b.offset := by
  refine List.pairwise_map.mpr ((pairwise_inOrder _ text).imp_of_mem fun {a b} first _ before => ?_)
  have some := (inOrder_bounds first).1
  simp only [toToken]
  omega

/-- A token stands in its text: its kind matches there, and says what the token says. -/
theorem exists_split_of_mem_read (h : t ∈ read text) :
    ∃ before front behind : Text, text = before ++ (front ++ behind) ∧
      t.offset = before.length ∧ front ≠ [] ∧
      t.kind.matchLength (front ++ behind) = front.length ∧ Reads t.kind front t.lexeme := by
  obtain ⟨c, ordered, rfl⟩ := List.mem_map.mp h
  have selected := (inOrder_perm TokenKind.precedence text).mem_iff.mp ordered
  have matched := (mem_ofKind_of_mem_select selected).2
  obtain ⟨-, some, before, behind, split, place, length⟩ :=
    (found_ofKind c.kind text).exact c matched
  have kind : c.toToken.kind = c.kind := Lexeme.kind_ofText c.kind c.text
  rw [kind]
  exact ⟨before, c.text, behind, split, congrArg Int.ofNat place.symm, some, length,
    reads_of_mem_ofKind matched⟩

end Token

end PrefixCalc
