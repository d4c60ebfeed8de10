import PrefixCalc.Proofs.Editor.OpenCall
import PrefixCalc.Proofs.Text.Characters
import PrefixCalc.Proofs.Text.Scan

/-!
# Arguments of the open call

Phrases are expressions as they are typed: words, strings, flat arrays and calls of any depth.
Behind the name of an open call each phrase should count as one argument. It does, unless another
paren opens inside it: then the scan for arguments passes over the paren of the call and counts what
stands behind it, the name and each of the arguments. And a paren inside a string is a paren like
any other to the search for the open call.
-/

namespace PrefixCalc

open Text Cursor

/-! ## §1 Phrases -/

/-- The name of a function. -/
structure FunctionName where
  text : Text
  some : text ≠ []
  letters : ∀ c ∈ text, isNameLetter c = true

/-- A phrase without parts: a number, a truth value or a constant is one word, and a string stands
between quotes. -/
inductive Atom where
  | word (text : Text) (some : text ≠ []) (bare : ∀ c ∈ text, isBare c = true)
  | string (content : Text) (closed : .char '"' ∉ content)

namespace Atom

/-- An atom as it is typed. -/
def text : Atom → Text
  | word text _ _ => text
  | string content _ => .char '"' :: (content ++ [.char '"'])

/-- The content of an atom that is a string. -/
def strings : Atom → List Text
  | word .. => []
  | string content _ => [content]

end Atom

/-- An expression as it is typed, on one line and with single blanks. -/
inductive Phrase where
  | atom (a : Atom)
  | array (elements : List Atom)
  | call (name : FunctionName) (arguments : List Phrase)

namespace Phrase

mutual

/-- A phrase as it is typed. -/
def text : Phrase → Text
  | atom a => a.text
  | array elements => .char '[' :: (join " " (elements.map Atom.text) ++ [.char ']'])
  | call name arguments => .char '(' :: (name.text ++ (textAll arguments ++ [.char ')']))

/-- Phrases as they are typed, each behind a blank. -/
def textAll : List Phrase → Text
  | [] => []
  | p :: rest => .char ' ' :: (text p ++ textAll rest)

end

mutual

/-- The contents of the strings in a phrase. -/
def strings : Phrase → List Text
  | atom a => a.strings
  | array elements => elements.flatMap Atom.strings
  | call _ arguments => stringsAll arguments

/-- The contents of the strings in phrases. -/
def stringsAll : List Phrase → List Text
  | [] => []
  | p :: rest => strings p ++ stringsAll rest

end

mutual

/-- No string ends the phrase around it too early: strings between brackets hold no close bracket,
and strings between parens no close paren. -/
def Clear : Phrase → Prop
  | atom _ => True
  | array elements => ∀ s ∈ elements.flatMap Atom.strings, .char ']' ∉ s
  | call _ arguments => (∀ s ∈ stringsAll arguments, .char ')' ∉ s) ∧ ClearAll arguments

/-- All of the phrases are so. -/
def ClearAll : List Phrase → Prop
  | [] => True
  | p :: rest => Clear p ∧ ClearAll rest

end

mutual

/-- How many arguments a phrase is taken for. A call in which another paren opens is taken apart:
its name is one, and its arguments are counted by themselves. -/
def weight : Phrase → Nat
  | atom _ | array _ => 1
  | call _ arguments => if .char '(' ∈ textAll arguments then weightAll arguments + 1 else 1

/-- How many arguments phrases are taken for. -/
def weightAll : List Phrase → Nat
  | [] => 0
  | p :: rest => weight p + weightAll rest

end

/-- A call in which another paren opens, that of another call or one inside a string. -/
def Deep : Phrase → Prop
  | atom _ | array _ => False
  | call _ arguments => .char '(' ∈ textAll arguments

end Phrase

/-! ## §2 One argument -/

namespace Cursor

variable {c d opening closing : CodePoint} {p : CodePoint → Bool} {word front rest inside : Text}

/-- How many arguments are found in a text. -/
def argumentCount (text : Text) : Nat := (scan argumentLength text).length

private theorem length_scanFrom (offset : Nat) (text : Text) :
    (scanFrom argumentLength 0 offset text).length = argumentCount text := by
  rw [← List.length_map Prod.snd, map_snd_scanFrom, List.length_map]
  rfl

private theorem argumentCount_of_whole (nonempty : front ≠ [])
    (whole : argumentLength (front ++ rest) = front.length) :
    argumentCount (front ++ rest) = argumentCount rest + 1 := by
  rw [argumentCount, scan, scanFrom_append_of_whole nonempty whole, List.length_cons,
    length_scanFrom]

private theorem argumentCount_of_none (none : argumentLength (c :: rest) = 0) :
    argumentCount (c :: rest) = argumentCount rest := by
  rw [argumentCount, scan, scanFrom, none]
  exact length_scanFrom 1 rest

/-- A close paren by itself is no argument. -/
theorem argumentCount_closeParen (rest : Text) :
    argumentCount (.char ')' :: rest) = argumentCount rest :=
  argumentCount_of_none rfl

private theorem argumentCount_blank (rest : Text) :
    argumentCount (.char ' ' :: rest) = argumentCount rest :=
  argumentCount_of_none rfl

private theorem enclosedLength_of_closed (all : ∀ c ∈ inside, p c = true)
    (stops : p closing = false)
    (rest : Text) :
    enclosedLength opening closing p (opening :: (inside ++ closing :: rest))
      = inside.length + 2 := by
  have ends : Stops p inside (closing :: rest) := .inr fun c first => by
    cases first
    exact stops
  rw [enclosedLength, if_pos rfl, dropWhile_append_of_stops ends,
    List.dropWhile_eq_nil_iff.mpr all, List.nil_append, runLength_append_of_stops ends,
    runLength_of_all all]
  exact if_pos rfl

/-- Another character at which the stretch stops spoils it. -/
theorem enclosedLength_of_other (all : ∀ c ∈ inside, p c = true) (stops : p d = false)
    (other : d ≠ closing) (rest : Text) :
    enclosedLength opening closing p (opening :: (inside ++ d :: rest)) = 0 := by
  have ends : Stops p inside (d :: rest) := .inr fun c first => by
    cases first
    exact stops
  rw [enclosedLength, if_pos rfl, dropWhile_append_of_stops ends,
    List.dropWhile_eq_nil_iff.mpr all, List.nil_append]
  exact if_neg other

/-- What is no part of a word. -/
theorem isBare_eq_false_iff :
    isBare c = false ↔ isBlank c = true ∨ c ∈ ("()[]\"" : Text) := by
  cases blank : isBlank c <;> simp [isBare, blank]

private theorem isBare_of_isNameLetter (letter : isNameLetter c = true) : isBare c = true := by
  refine Bool.ne_false_iff.mp fun mark => ?_
  rcases isBare_eq_false_iff.mp mark with blank | member
  · rw [not_isBlank_of_isNameLetter letter] at blank
    cases blank
  · have none : ∀ c ∈ ("()[]\"" : Text), isNameLetter c = false := by decide
    rw [none c member] at letter
    cases letter

/-- A word ends at a character that can be no part of it. -/
theorem argumentLength_word (some : word ≠ []) (bare : ∀ c ∈ word, isBare c = true)
    (ends : ∀ c ∈ rest.head?, isBare c = false) :
    argumentLength (word ++ rest) = word.length := by
  have run : runLength isBare (word ++ rest) = word.length := by
    rw [runLength_append_of_stops (.inr ends), runLength_of_all bare]
  obtain ⟨c, others, rfl⟩ := List.exists_cons_of_ne_nil some
  have other (mark : CodePoint) (member : mark ∈ ("()[]\"" : Text)) : c ≠ mark := by
    rintro rfl
    have ends := isBare_eq_false_iff.mpr (.inr member)
    rw [bare c List.mem_cons_self] at ends
    cases ends
  rw [List.cons_append] at run ⊢
  rw [argumentLength, if_neg (other _ (by decide)), if_neg (other _ (by decide)),
    if_neg (other _ (by decide)), run]

private theorem argumentCount_word (some : word ≠ []) (bare : ∀ c ∈ word, isBare c = true)
    (ends : ∀ c ∈ rest.head?, isBare c = false) :
    argumentCount (word ++ rest) = argumentCount rest + 1 :=
  argumentCount_of_whole some (argumentLength_word some bare ends)

/-- Everything from a mark to the one that closes it is one argument. -/
theorem argumentCount_enclosed (rest : Text)
    (length : argumentLength (opening :: (inside ++ closing :: rest)) = inside.length + 2) :
    argumentCount (opening :: (inside ++ closing :: rest)) = argumentCount rest + 1 := by
  have whole : opening :: (inside ++ closing :: rest)
      = (opening :: (inside ++ [closing])) ++ rest := by simp
  rw [whole] at length ⊢
  refine argumentCount_of_whole (List.cons_ne_nil _ _) (length.trans ?_)
  simp

private theorem argumentCount_string (closed : .char '"' ∉ inside) (rest : Text) :
    argumentCount (.char '"' :: (inside ++ .char '"' :: rest)) = argumentCount rest + 1 := by
  refine argumentCount_enclosed rest (enclosedLength_of_closed (fun c member => ?_) rfl rest)
  simpa using ne_of_mem_of_not_mem member closed

private theorem argumentLength_bracket (rest : Text) :
    argumentLength (.char '[' :: rest) = enclosedLength '[' ']' (· ≠ ']') (.char '[' :: rest) := by
  rw [argumentLength, if_neg (by decide), if_pos rfl]

private theorem argumentLength_paren (rest : Text) :
    argumentLength (.char '(' :: rest)
      = enclosedLength '(' ')' (fun d => d ≠ '(' && d ≠ ')') (.char '(' :: rest) := by
  rw [argumentLength, if_neg (by decide), if_neg (by decide), if_pos rfl]

private theorem argumentCount_brackets (closed : .char ']' ∉ inside) (rest : Text) :
    argumentCount (.char '[' :: (inside ++ .char ']' :: rest)) = argumentCount rest + 1 := by
  refine argumentCount_enclosed rest ((argumentLength_bracket _).trans ?_)
  refine enclosedLength_of_closed (fun c member => ?_) rfl rest
  simpa using ne_of_mem_of_not_mem member closed

private theorem argumentCount_parens
    (notOpened : .char '(' ∉ inside) (notClosed : .char ')' ∉ inside)
    (rest : Text) :
    argumentCount (.char '(' :: (inside ++ .char ')' :: rest)) = argumentCount rest + 1 := by
  refine argumentCount_enclosed rest ((argumentLength_paren _).trans ?_)
  refine enclosedLength_of_closed (fun c member => ?_) rfl rest
  simpa using ⟨ne_of_mem_of_not_mem member notOpened, ne_of_mem_of_not_mem member notClosed⟩

/-- No paren closes in the text before one opens. -/
def OpensFirst (text : Text) : Prop := .char ')' ∉ text.takeWhile (· ≠ .char '(')

theorem OpensFirst.of_not_mem (absent : .char ')' ∉ inside) : OpensFirst inside := fun member =>
  absent ((List.takeWhile_prefix _).subset member)

theorem OpensFirst.append (first : OpensFirst front) (second : OpensFirst rest) :
    OpensFirst (front ++ rest) := by
  rw [OpensFirst, List.takeWhile_append]
  split
  · rename_i whole
    have all := (List.takeWhile_prefix _).eq_of_length whole
    rw [OpensFirst, all] at first
    exact List.not_mem_append first second
  · exact first

private theorem OpensFirst.not_mem (first : OpensFirst inside) (none : .char '(' ∉ inside) :
    .char ')' ∉ inside := by
  have all : inside.takeWhile (· ≠ .char '(') = inside :=
    List.takeWhile_eq_self_iff.mpr fun c member => by
      simpa using ne_of_mem_of_not_mem member none
  rwa [OpensFirst, all] at first

/-- An open paren behind which another one opens, before any paren closes, starts no argument. -/
theorem argumentCount_opened (opened : .char '(' ∈ inside)
    (first : OpensFirst inside) (rest : Text) :
    argumentCount (.char '(' :: (inside ++ rest)) = argumentCount (inside ++ rest) := by
  -- the stretch behind the paren ends at the next open paren, where no close paren can stand
  have ends := head?_dropWhile (· ≠ .char '(') inside
  have plain : ∀ c ∈ inside.takeWhile (· ≠ .char '('),
      (decide (c ≠ .char '(') && decide (c ≠ .char ')')) = true := fun c member => by
    rw [List.mem_takeWhile_imp member, Bool.true_and]
    exact decide_eq_true (ne_of_mem_of_not_mem member first)
  cases behind : inside.dropWhile (· ≠ .char '(') with
  | nil => simpa using List.dropWhile_eq_nil_iff.mp behind _ opened
  | cons d later =>
    rw [behind] at ends
    obtain rfl : d = .char '(' := by simpa using ends d rfl
    have split : inside ++ rest
        = inside.takeWhile (· ≠ .char '(') ++ .char '(' :: (later ++ rest) := by
      rw [← List.cons_append, ← behind, ← List.append_assoc, List.takeWhile_append_dropWhile]
    refine argumentCount_of_none ((argumentLength_paren _).trans ?_)
    rw [split]
    exact enclosedLength_of_other plain rfl (by decide) (later ++ rest)

end Cursor

/-! ## §3 All arguments -/

namespace FunctionName

variable (name : FunctionName)

theorem bare : ∀ c ∈ name.text, isBare c = true := fun c member =>
  isBare_of_isNameLetter (name.letters c member)

private theorem open_not_mem : .char '(' ∉ name.text := fun member => nomatch name.letters _ member

private theorem close_not_mem : .char ')' ∉ name.text := fun member => nomatch name.letters _ member

end FunctionName

namespace Phrase

variable {rest : Text}

private theorem argumentCount_atom (a : Atom) (ends : ∀ c ∈ rest.head?, isBare c = false) :
    argumentCount (a.text ++ rest) = argumentCount rest + 1 := by
  cases a with
  | word text some bare => exact argumentCount_word some bare ends
  | string content closed =>
    rw [Atom.text, List.cons_append, List.append_assoc]
    exact argumentCount_string closed rest

/-- Words and marks around strings: a character that no word has and no string holds is in no
atom. -/
theorem not_mem_atom {c : CodePoint} {a : Atom} (mark : isBare c = false) (notQuote : c ≠ .char '"')
    (absent : ∀ s ∈ a.strings, c ∉ s) : c ∉ a.text := by
  cases a with
  | word text some bare =>
    intro member
    rw [bare c member] at mark
    cases mark
  | string content closed =>
    have inside : c ∉ content := absent content (List.mem_singleton_self content)
    simp [Atom.text, notQuote, inside]

private theorem not_mem_array {c : CodePoint} {elements : List Atom} (mark : isBare c = false)
    (notQuote : c ≠ .char '"') (notBlank : c ≠ .char ' ')
    (absent : ∀ s ∈ elements.flatMap Atom.strings, c ∉ s) :
    c ∉ join " " (elements.map Atom.text) := by
  refine not_mem_join (by simpa [ofString] using notBlank) fun part member => ?_
  obtain ⟨a, among, rfl⟩ := List.mem_map.mp member
  exact not_mem_atom mark notQuote fun s inside =>
    absent s (List.mem_flatMap.mpr ⟨a, among, inside⟩)

private theorem opensFirst_text {p : Phrase} (absent : ∀ s ∈ p.strings, .char ')' ∉ s) :
    OpensFirst p.text := by
  have mark : isBare (.char ')') = false := by decide
  cases p with
  | atom a => exact .of_not_mem (not_mem_atom mark (by decide) absent)
  | array elements =>
    have inside := not_mem_array mark (by decide) (by decide) absent
    refine .of_not_mem fun member => ?_
    simp [text, inside] at member
  | call name arguments => simp [OpensFirst, text]

private theorem opensFirst_textAll {ps : List Phrase}
    (absent : ∀ s ∈ stringsAll ps, .char ')' ∉ s) :
    OpensFirst (textAll ps) := by
  induction ps with
  | nil => exact .of_not_mem List.not_mem_nil
  | cons p ps ih =>
    obtain ⟨first, others⟩ := List.forall_mem_append.mp absent
    have blank : OpensFirst [.char ' '] := .of_not_mem (by decide)
    exact blank.append ((opensFirst_text first).append (ih others))

/-- Any mark ends a word. -/
theorem ends_of_mark {c : CodePoint} (mark : isBare c = false) (rest : Text) :
    ∀ d ∈ (c :: rest).head?, isBare d = false := by
  rintro _ ⟨⟩
  exact mark

private theorem head?_textAll_append (ps : List Phrase) (rest : Text) :
    ∀ c ∈ (textAll ps ++ .char ')' :: rest).head?, isBare c = false := by
  cases ps with
  | nil => exact ends_of_mark (by decide) rest
  | cons p ps => exact ends_of_mark (by decide) _

mutual

/-- **A phrase is taken for as many arguments as it weighs**, where a word in it ends with it. -/
theorem argumentCount_text (p : Phrase) (clear : p.Clear) {rest : Text}
    (ends : ∀ c ∈ rest.head?, isBare c = false) :
    argumentCount (p.text ++ rest) = argumentCount rest + p.weight := by
  match p with
  | .atom a => exact argumentCount_atom a ends
  -- Brackets are taken as one argument, whatever stands between them.
  | .array elements =>
    have closed := not_mem_array (by decide) (by decide) (by decide) clear
    rw [text, List.cons_append, List.append_assoc]
    exact argumentCount_brackets closed rest
  | .call name arguments =>
    obtain ⟨absent, clearArguments⟩ := clear
    have first : OpensFirst (name.text ++ textAll arguments) :=
      (OpensFirst.of_not_mem name.close_not_mem).append (opensFirst_textAll absent)
    have split : (call name arguments).text ++ rest
        = .char '(' :: (name.text ++ textAll arguments ++ .char ')' :: rest) := by
      simp [text]
    rw [split, weight]
    split
    · -- the paren of the call is passed over, and so is the one that closes it
      rename_i opened
      rw [argumentCount_opened (List.mem_append_right _ opened) first, List.append_assoc,
        argumentCount_word name.some name.bare (head?_textAll_append arguments rest),
        argumentCount_textAll arguments clearArguments (ends_of_mark (by decide) rest),
        argumentCount_closeParen, Nat.add_assoc]
    · -- a call without a call inside is one argument, up to its own close paren
      rename_i notOpened
      have none : .char '(' ∉ name.text ++ textAll arguments :=
        List.not_mem_append name.open_not_mem notOpened
      exact argumentCount_parens none (first.not_mem none) rest

theorem argumentCount_textAll (ps : List Phrase) (clear : ClearAll ps) {rest : Text}
    (ends : ∀ c ∈ rest.head?, isBare c = false) :
    argumentCount (textAll ps ++ rest) = argumentCount rest + weightAll ps := by
  match ps with
  | [] => rfl
  | p :: ps =>
    obtain ⟨first, others⟩ := clear
    -- behind the first phrase stands the blank of the next one, or `rest` if there is none
    have ends' : ∀ c ∈ (textAll ps ++ rest).head?, isBare c = false := by
      cases ps with
      | nil => exact ends
      | cons p ps => exact ends_of_mark (by decide) _
    rw [textAll, List.cons_append, List.append_assoc, argumentCount_blank,
      argumentCount_text p first ends', argumentCount_textAll ps others ends, weightAll]
    omega

end

/-! ## §4 The open call -/

/-- Phrases as they are typed, each in front of a blank. -/
def spaced (ps : List Phrase) : Text := ps.flatMap fun p => p.text ++ [.char ' ']

/-- A call that is being typed: its name and its arguments so far, each in front of a blank. -/
def openLine (name : FunctionName) (arguments : List Phrase) : Text :=
  .char '(' :: (name.text ++ .char ' ' :: spaced arguments)

private theorem blank_spaced (ps : List Phrase) :
    .char ' ' :: spaced ps = textAll ps ++ [.char ' '] := by
  induction ps with
  | nil => rfl
  | cons p ps ih =>
    rw [textAll, List.cons_append, List.append_assoc, ← ih, spaced, List.flatMap_cons,
      List.append_assoc]
    rfl

private theorem argumentCount_spaced {arguments : List Phrase} (clear : ClearAll arguments) :
    argumentCount (.char ' ' :: spaced arguments) = weightAll arguments := by
  rw [blank_spaced, argumentCount_textAll arguments clear (ends_of_mark (by decide) [])]
  exact Nat.zero_add _

private theorem length_le_weightAll (ps : List Phrase) : ps.length ≤ weightAll ps := by
  induction ps with
  | nil => exact Nat.le_refl 0
  | cons p ps ih =>
    have some : 0 < p.weight := by
      cases p with
      | call name arguments =>
        rw [weight]
        split <;> omega
      | _ => exact Nat.one_pos
    rw [List.length_cons, weightAll]
    omega

/-- A phrase is taken for one argument unless it is a call in which another paren opens. -/
theorem weight_eq_one_iff {p : Phrase} : p.weight = 1 ↔ ¬ p.Deep := by
  cases p with
  | atom a => exact iff_of_true rfl id
  | array elements => exact iff_of_true rfl id
  | call name arguments =>
    rw [weight, Deep]
    split
    · rename_i opened
      -- there is something for the paren to stand in
      have some : arguments ≠ [] := by
        rintro rfl
        cases opened
      have positive := length_le_weightAll arguments
      have := List.length_pos_iff.mpr some
      exact iff_of_false (by omega) (not_not.mpr opened)
    · rename_i notOpened
      exact iff_of_true rfl notOpened

private theorem weightAll_eq_length_iff {ps : List Phrase} :
    weightAll ps = ps.length ↔ ∀ p ∈ ps, ¬ p.Deep := by
  induction ps with
  | nil => exact iff_of_true rfl (List.forall_mem_nil _)
  | cons p ps ih =>
    have others := length_le_weightAll ps
    have first := length_le_weightAll [p]
    rw [List.forall_mem_cons, ← ih, ← weight_eq_one_iff, weightAll, List.length_cons]
    simp only [weightAll, List.length_singleton] at first
    omega

mutual

/-- Without parens in strings the parens of a phrase are those of its calls. -/
theorem paired_text (p : Phrase) (opens : ∀ s ∈ p.strings, .char '(' ∉ s)
    (closes : ∀ s ∈ p.strings, .char ')' ∉ s) : Paired p.text := by
  match p with
  | .atom a =>
    exact paired_of_not_mem (not_mem_atom (by decide) (by decide) opens)
      (not_mem_atom (by decide) (by decide) closes)
  | .array elements =>
    have notOpened := not_mem_array (by decide) (by decide) (by decide) opens
    have notClosed := not_mem_array (by decide) (by decide) (by decide) closes
    exact paired_of_not_mem (by simp [text, notOpened]) (by simp [text, notClosed])
  | .call name arguments =>
    have inside := paired_of_not_mem name.open_not_mem name.close_not_mem
    rw [text, ← List.append_assoc]
    exact (inside.append (paired_textAll arguments opens closes)).enclosed

theorem paired_textAll (ps : List Phrase) (opens : ∀ s ∈ stringsAll ps, .char '(' ∉ s)
    (closes : ∀ s ∈ stringsAll ps, .char ')' ∉ s) : Paired (textAll ps) := by
  match ps with
  | [] => exact ⟨rfl, rfl⟩
  | p :: ps =>
    obtain ⟨opensFirst, opensOthers⟩ := List.forall_mem_append.mp opens
    obtain ⟨closesFirst, closesOthers⟩ := List.forall_mem_append.mp closes
    have blank : Paired [.char ' '] := paired_singleton (by decide) (by decide)
    exact blank.append ((paired_text p opensFirst closesFirst).append
      (paired_textAll ps opensOthers closesOthers))

end

private theorem paired_spaced {ps : List Phrase} (opens : ∀ s ∈ stringsAll ps, .char '(' ∉ s)
    (closes : ∀ s ∈ stringsAll ps, .char ')' ∉ s) : Paired (spaced ps) := by
  induction ps with
  | nil => exact ⟨rfl, rfl⟩
  | cons p ps ih =>
    obtain ⟨opensFirst, opensOthers⟩ := List.forall_mem_append.mp opens
    obtain ⟨closesFirst, closesOthers⟩ := List.forall_mem_append.mp closes
    have blank : Paired [.char ' '] := paired_singleton (by decide) (by decide)
    exact ((paired_text p opensFirst closesFirst).append blank).append
      (ih opensOthers closesOthers)

variable {name : FunctionName} {arguments : List Phrase}

private theorem paired_name : Paired (name.text ++ [.char ' ']) :=
  (paired_of_not_mem name.open_not_mem name.close_not_mem).append
    (paired_singleton (by decide) (by decide))

private theorem openLine_eq (name : FunctionName) (arguments : List Phrase) :
    openLine name arguments
      = [.char '('] ++ (name.text ++ [.char ' ']) ++ spaced arguments := by
  simp [openLine]

/-- If the parens of the arguments are paired, those in strings as well, the call is found. -/
theorem openCall?_of_paired (paired : Paired (spaced arguments)) :
    openCall? (openLine name arguments)
      = some (name.text, argumentCount (.char ' ' :: spaced arguments)) := by
  have last :
      BehindLast (openLine name arguments) (name.text ++ .char ' ' :: spaced arguments) := by
    refine behindLast_iff.mpr ⟨[], rfl, ?_⟩
    rw [← List.singleton_append, ← List.append_assoc]
    exact paired_name.append paired
  have leads : Leads (name.text ++ .char ' ' :: spaced arguments) name.text
      (.char ' ' :: spaced arguments) := by
    refine ⟨⟨[], List.forall_mem_nil _, rfl⟩, name.some, name.letters, ?_⟩
    rintro _ ⟨⟩
    decide
  exact openCall?_of_leads last leads

/-- Otherwise the paren of the call does not count, be it that a paren in a string opens another
call or that one closes this call. -/
theorem openCall?_of_not_paired (unpaired : ¬ Paired (spaced arguments)) :
    openCall? (openLine name arguments) = openCall? (spaced arguments) := by
  rw [openLine_eq]
  by_cases waits : (matching (spaced arguments)).pending = []
  · -- a close paren is left over, and the paren of the call is its partner
    have surplus : (matching (spaced arguments)).surplus ≠ [] := fun none => unpaired ⟨waits, none⟩
    have closed : (matching ([.char '('] ++ (name.text ++ [.char ' ']) ++ spaced arguments)).pending
        = [] := by
      have opening : (matching [.char '(']).pending = [⟨.openParen, 0⟩] := rfl
      have some := List.length_pos_iff.mpr surplus
      rw [pending_append, waits, pending_append_of_paired paired_name, opening]
      exact List.drop_eq_nil_of_le some
    rw [openCall?_of_pending_eq_nil closed, openCall?_of_pending_eq_nil waits]
  · obtain ⟨tail, last⟩ := exists_behindLast waits
    obtain ⟨front, split, paired⟩ := behindLast_iff.mp last
    have last' : BehindLast ([.char '('] ++ (name.text ++ [.char ' ']) ++ spaced arguments) tail :=
      behindLast_iff.mpr ⟨_ ++ front, by rw [split, List.append_assoc _ front], paired⟩
    rw [openCall?_of_behindLast last, openCall?_of_behindLast last']

/-- **Arguments of a call that is being typed.** The editor finds the call exactly by the parens of
its arguments: if they are paired, those in strings as well, it finds the name of the call, and
otherwise it does as if the call had not been opened. What it counts, unless a string ends a phrase
early, is the weight of the arguments: each is one argument, but a call in which another paren opens
is taken apart. So the number is right exactly if there is no such call among them. Without parens
in strings the parens are always paired. -/
theorem openCall?_openLine (name : FunctionName) (arguments : List Phrase) :
    (Paired (spaced arguments) →
      ∃ count, openCall? (openLine name arguments) = some (name.text, count) ∧
        (ClearAll arguments → count = weightAll arguments ∧
          (count = arguments.length ↔ ∀ p ∈ arguments, ¬ p.Deep))) ∧
    (¬ Paired (spaced arguments) →
      openCall? (openLine name arguments) = openCall? (spaced arguments)) ∧
    ((∀ s ∈ stringsAll arguments, .char '(' ∉ s ∧ .char ')' ∉ s) → Paired (spaced arguments)) := by
  refine ⟨fun paired => ⟨_, openCall?_of_paired paired, fun clear => ?_⟩,
    openCall?_of_not_paired, fun absent => ?_⟩
  · rw [argumentCount_spaced clear]
    exact ⟨rfl, weightAll_eq_length_iff⟩
  · exact paired_spaced (fun s member => (absent s member).1) fun s member => (absent s member).2

/-- A function named by one letter. -/
def short : FunctionName := ⟨"f", by decide, by decide⟩

/-- The call `(plus (minus 1 2) 3)`. -/
def callInCall : Phrase :=
  .call ⟨"plus", by decide, by decide⟩
    [.call ⟨"minus", by decide, by decide⟩
      [.atom (.word "1" (by decide) (by decide)), .atom (.word "2" (by decide) (by decide))],
     .atom (.word "3" (by decide) (by decide))]

/-- A string that holds one character. -/
def lone (c : Char) (notQuote : .char '"' ∉ [CodePoint.char c]) : Atom := .string [c] notQuote

theorem openCall?_openLine_callInCall :
    Paired (spaced [callInCall, .atom (lone ']' (by decide))]) ∧
    ClearAll [callInCall, .atom (lone ']' (by decide))] ∧
    openCall? (openLine short [callInCall, .atom (lone ']' (by decide))])
      = some (ofString "f", 4) := by
  have paired : Paired (spaced [callInCall, .atom (lone ']' (by decide))]) := by decide +kernel
  have clear : ClearAll [callInCall, .atom (lone ']' (by decide))] := by
    simp [ClearAll, Clear, callInCall, stringsAll, strings, Atom.strings]
  obtain ⟨count, found, counted⟩ :=
    (openCall?_openLine short [callInCall, .atom (lone ']' (by decide))]).1 paired
  have weight : weightAll [callInCall, .atom (lone ']' (by decide))] = 4 := by decide +kernel
  rw [(counted clear).1, weight] at found
  exact ⟨paired, clear, found⟩

/-- A call inside a call is taken for three arguments, an open paren in a string hides the call
around it, and a bracket in a string ends the array around it. -/
theorem openCall?_ne_arguments :
    openLine short [callInCall] = "(f (plus (minus 1 2) 3) " ∧
    openCall? (openLine short [callInCall]) = some (ofString "f", 3) ∧
    openLine short [.atom (lone '(' (by decide))] = "(f \"(\" " ∧
    openCall? (openLine short [.atom (lone '(' (by decide))]) = none ∧
    openLine short [.array [lone ']' (by decide), .word "1" (by decide) (by decide)]]
      = "(f [\"]\" 1] " ∧
    openCall? (openLine short [.array [lone ']' (by decide), .word "1" (by decide) (by decide)]])
      = some (ofString "f", 2) := by
  decide +kernel

end Phrase

end PrefixCalc
