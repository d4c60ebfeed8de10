import PrefixCalc.Proofs.Text.Scan
import PrefixCalc.Proofs.Value.Display

/-!
# Colours on display

Colours are put around the scalars of a value and change nothing else: a coloured text is the plain
one with a sequence in front of every scalar that sets its colour and one behind it that resets it.
Deleting the sequences gives the plain text back, since neither brackets nor scalars hold the escape
character that a sequence starts with, strings of the value aside.
-/

namespace PrefixCalc

open Text

variable {front back rest text plain colored : Text} {s : Scalar} {c : CodePoint}

/-! ## §1 Sequences in a text -/

/-- The characters outside of all matches, the next `skip` ones being part of a match. -/
def Text.outsideFrom (matchLength : Text → Nat) : (skip : Nat) → Text → Text
  | _, [] => []
  | skip + 1, _ :: rest => outsideFrom matchLength skip rest
  | 0, c :: rest =>
    match matchLength (c :: rest) with
    | 0 => c :: outsideFrom matchLength 0 rest
    | more + 1 => outsideFrom matchLength more rest

/-- What is left of a text when all matches in it are deleted. -/
def Text.outside (matchLength : Text → Nat) (text : Text) : Text := outsideFrom matchLength 0 text

private theorem Text.outsideFrom_skip {matchLength : Text → Nat} (front rest : Text) :
    outsideFrom matchLength front.length (front ++ rest) = outside matchLength rest := by
  induction front with
  | nil => rfl
  | cons c front ih => exact ih

/-- A match at the start of a text is deleted. -/
theorem Text.outside_append_of_whole {matchLength : Text → Nat} (nonempty : front ≠ [])
    (whole : matchLength (front ++ rest) = front.length) :
    outside matchLength (front ++ rest) = outside matchLength rest := by
  obtain ⟨c, front, rfl⟩ := List.exists_cons_of_ne_nil nonempty
  rw [List.cons_append] at whole ⊢
  rw [outside, outsideFrom, whole]
  exact outsideFrom_skip front rest

namespace Color

/-- The length of a colour sequence at the start of a text: escape, bracket, digits and `m`. -/
def sequenceLength : Text → Nat
  | .char '\x1b' :: .char '[' :: rest =>
    match rest.dropWhile isDigit with
    | .char 'm' :: _ => if runLength isDigit rest = 0 then 0 else runLength isDigit rest + 3
    | _ => 0
  | _ => 0

private theorem sequenceLength_of_ne (other : c ≠ .char '\x1b') (rest : Text) :
    sequenceLength (c :: rest) = 0 := by
  unfold sequenceLength
  split
  · rename_i same
    exact absurd (List.cons.inj same).1 other
  · rfl

private theorem sequence_ne_nil (code : Nat) : sequence code ≠ [] := by
  simp [sequence, ofString]

private theorem sequenceLength_sequence (code : Nat) (rest : Text) :
    sequenceLength (sequence code ++ rest) = (sequence code).length := by
  have split : sequence code ++ rest
      = .char '\x1b' :: .char '[' :: (Text.ofNat code ++ .char 'm' :: rest) := by
    simp [sequence, ofString]
  -- the digits go as far as the `m` and no further
  have ends : Stops isDigit (Text.ofNat code) (.char 'm' :: rest) := .inr fun c first => by
    cases first
    decide
  have digits : ∀ c ∈ Text.ofNat code, isDigit c = true := fun c => isDigit_of_mem_ofNat
  have run : runLength isDigit (Text.ofNat code ++ .char 'm' :: rest)
      = (Text.ofNat code).length := by
    rw [runLength_append_of_stops ends, runLength_of_all digits]
  have some := List.length_pos_iff.mpr (ofNat_ne_nil code)
  have length : (sequence code).length = (Text.ofNat code).length + 3 := by
    simp [sequence, ofString]
  rw [split, sequenceLength, dropWhile_append_of_stops ends, List.dropWhile_eq_nil_iff.mpr digits,
    run, length]
  exact if_neg (Nat.ne_of_gt some)

end Color

/-! ## §2 Plain and coloured parts -/

open Color

/-- No sequence starts in a text without an escape character. -/
theorem Text.outside_append_plain (plain : .char '\x1b' ∉ front) (rest : Text) :
    outside sequenceLength (front ++ rest) = front ++ outside sequenceLength rest := by
  induction front with
  | nil => rfl
  | cons c front ih =>
    rw [List.cons_append, outside, outsideFrom,
      sequenceLength_of_ne (List.ne_of_not_mem_cons plain).symm]
    exact congrArg (List.cons c) (ih (List.not_mem_of_not_mem_cons plain))

/-- The sequences in a text, from first to last. -/
def Color.sequences (text : Text) : List Text := (scan sequenceLength text).map Prod.snd

private theorem sequences_append_plain (plain : .char '\x1b' ∉ front) (rest : Text) :
    sequences (front ++ rest) = sequences rest := by
  induction front with
  | nil => rfl
  | cons c front ih =>
    rw [List.cons_append, sequences, scan, scanFrom,
      sequenceLength_of_ne (List.ne_of_not_mem_cons plain).symm]
    exact (map_snd_scanFrom 1 _).trans (ih (List.not_mem_of_not_mem_cons plain))

private theorem sequences_append_sequence (code : Nat) (rest : Text) :
    sequences (sequence code ++ rest) = sequence code :: sequences rest := by
  rw [sequences, scan, scanFrom_append_of_whole (sequence_ne_nil code)
    (sequenceLength_sequence code rest), List.map_cons, map_snd_scanFrom]
  rfl

private theorem outside_append_paint (color : Color) (plain : .char '\x1b' ∉ text) (rest : Text) :
    outside sequenceLength (color.paint text ++ rest) = text ++ outside sequenceLength rest := by
  have starts (code : Nat) (rest : Text) :
      outside sequenceLength (sequence code ++ rest) = outside sequenceLength rest :=
    outside_append_of_whole (sequence_ne_nil code) (sequenceLength_sequence code rest)
  rw [paint, List.append_assoc, List.append_assoc, starts, outside_append_plain plain, starts]

private theorem sequences_append_paint (color : Color) (plain : .char '\x1b' ∉ text) (rest : Text) :
    sequences (color.paint text ++ rest) = sequence color.code :: sequence 0 :: sequences rest := by
  rw [paint, List.append_assoc, List.append_assoc, sequences_append_sequence,
    sequences_append_plain plain, sequences_append_sequence]

/-! ## §3 Decorated texts -/

/-- The coloured text is the plain one with the given scalars in their colours, in order: everything
else in it is brackets and blanks. -/
inductive Decorates : List Scalar → Text → Text → Prop where
  /-- Brackets and blanks have no colour. -/
  | frame (marks : Text) (all : ∀ c ∈ marks, c ∈ ("[ ]" : Text)) : Decorates [] marks marks
  /-- A scalar has the colour of its kind. -/
  | scalar (s : Scalar) (text : Text) (shown : s.shown = .ok text) :
      Decorates [s] text ((ofKind s.kind).paint text)
  | append {first second : List Scalar} {plain colored plain' colored' : Text}
      (front : Decorates first plain colored) (back : Decorates second plain' colored') :
      Decorates (first ++ second) (plain ++ plain') (colored ++ colored')

namespace Scalar

/-- The escape character stands in no scalar but in strings that hold it. -/
theorem escape_not_mem_shown (shown : s.shown = .ok text)
    (clean : ∀ content, s = .string content → .char '\x1b' ∉ content) : .char '\x1b' ∉ text := by
  have notNumeric : isNumeric (.char '\x1b') = false := by decide
  have absent {text : Text} (numeric : text.Numeric) : .char '\x1b' ∉ text := fun member => by
    rw [numeric _ member] at notNumeric
    cases notNumeric
  -- numbers are made of digits and a few marks, none of which is the escape character
  cases s with
  | int n =>
    have written : Text.decimal n = .ok text := shown
    rw [eq_ofInt_of_decimal written]
    exact absent (numeric_ofInt n)
  | float x =>
    cases shown
    exact absent (doubleLayout.numeric_write x)
  | string content =>
    cases shown
    have inside := clean content rfl
    simp [ofString, inside]
  | boolean b =>
    cases shown
    cases b <;> decide

end Scalar

private theorem Decorates.outside_append {scalars : List Scalar}
    (h : Decorates scalars plain colored)
    (clean : ∀ content, .string content ∈ scalars → .char '\x1b' ∉ content) (rest : Text) :
    outside sequenceLength (colored ++ rest) = plain ++ outside sequenceLength rest := by
  -- `rest` is free, since behind the first of two parts stands the second one
  induction h generalizing rest with
  | frame marks all =>
    refine outside_append_plain (fun member => ?_) rest
    exact absurd (all _ member) (by decide)
  | scalar s text shown =>
    refine outside_append_paint _ (s.escape_not_mem_shown shown fun content same => ?_) rest
    exact clean content (same ▸ List.mem_singleton_self s)
  | append front back first second =>
    rw [List.append_assoc,
      first fun content member => clean content (List.mem_append_left _ member),
      second fun content member => clean content (List.mem_append_right _ member),
      List.append_assoc]

private theorem Decorates.sequences_append {scalars : List Scalar}
    (h : Decorates scalars plain colored)
    (clean : ∀ content, .string content ∈ scalars → .char '\x1b' ∉ content) (rest : Text) :
    sequences (colored ++ rest)
      = scalars.flatMap (fun s => [sequence (ofKind s.kind).code, sequence 0])
        ++ sequences rest := by
  induction h generalizing rest with
  | frame marks all =>
    refine sequences_append_plain (fun member => ?_) rest
    exact absurd (all _ member) (by decide)
  | scalar s text shown =>
    refine sequences_append_paint _ (s.escape_not_mem_shown shown fun content same => ?_) rest
    exact clean content (same ▸ List.mem_singleton_self s)
  | append front back first second =>
    rw [List.append_assoc,
      first fun content member => clean content (List.mem_append_left _ member),
      second fun content member => clean content (List.mem_append_right _ member),
      List.flatMap_append, List.append_assoc]

/-! ## §4 Values -/

namespace Value

mutual

/-- The scalars in a value, from first to last. -/
def scalars : Value → List Scalar
  | scalar s => [s]
  | array elements => scalarsAll elements

/-- The scalars in values. -/
def scalarsAll : List Value → List Scalar
  | [] => []
  | v :: rest => scalars v ++ scalarsAll rest

end

/-- None of the whole numbers is too long to be written. -/
def Short (scalars : List Scalar) : Prop :=
  ∀ n, .int n ∈ scalars → (Text.ofNat n.natAbs).length ≤ Limit.maxDigits

/-- What is written with and without colours differs in the colours. -/
def Displays (v : Value) : Prop :=
  ∃ plain colored, v.display false = .ok plain ∧ v.display true = .ok colored ∧
    Decorates v.scalars plain colored

private theorem displays_scalar {s : Scalar} (short : Short [s]) : (scalar s).Displays := by
  have fits : shortLiterals.literal s := fun n same => short n (List.mem_singleton.mpr same.symm)
  obtain ⟨text, shown⟩ := exists_leaf writes_shown fits
  refine ⟨text, (Color.ofKind s.kind).paint text, ?_, ?_, .scalar s text shown⟩
  · rw [display, write, Scalar.display, shown]
    rfl
  · rw [display, write, Scalar.display, shown]
    rfl

/-- The elements of an array on display, each behind a blank, and the bracket behind them. -/
theorem exists_bracketTail {elements : List Value} (each : ∀ v ∈ elements, v.Displays) :
    ∃ plains coloreds,
      writeAll (Scalar.display false) bracketed elements = .ok plains ∧
      writeAll (Scalar.display true) bracketed elements = .ok coloreds ∧
      Decorates (scalarsAll elements) (bracketTail plains) (bracketTail coloreds) := by
  induction elements with
  | nil => exact ⟨[], [], rfl, rfl, .frame _ (by decide)⟩
  | cons v elements ih =>
    obtain ⟨⟨plain, colored, uncolored, painted, inside⟩, others⟩ := List.forall_mem_cons.mp each
    obtain ⟨plains, coloreds, uncoloreds, painteds, behind⟩ := ih others
    have blank : Decorates [] [.char ' '] [.char ' '] := .frame _ (by decide)
    refine ⟨plain :: plains, colored :: coloreds, ?_, ?_, ?_⟩
    · rw [display] at uncolored
      rw [writeAll, uncolored, uncoloreds]
      rfl
    · rw [display] at painted
      rw [writeAll, painted, painteds]
      rfl
    · simpa [bracketTail, scalarsAll] using blank.append (inside.append behind)

private theorem displays_array {elements : List Value} (each : ∀ v ∈ elements, v.Displays) :
    (array elements).Displays := by
  obtain ⟨plains, coloreds, uncoloreds, painteds, inside⟩ := exists_bracketTail each
  have opening : Decorates [] [.char '['] [.char '['] := .frame _ (by decide)
  refine ⟨bracketed plains, bracketed coloreds, ?_, ?_, ?_⟩
  · rw [display, write, uncoloreds]
    rfl
  · rw [display, write, painteds]
    rfl
  · rw [bracketed_eq (forall_ne_nil_of_writeAll uncoloreds),
      bracketed_eq (forall_ne_nil_of_writeAll painteds)]
    exact opening.append inside

mutual

theorem displays (v : Value) (short : Short v.scalars) : v.Displays := by
  match v with
  | .scalar s => exact displays_scalar short
  | .array elements => exact displays_array (displaysAll elements short)

theorem displaysAll (elements : List Value) (short : Short (scalarsAll elements)) :
    ∀ v ∈ elements, v.Displays := by
  match elements with
  | [] => exact List.forall_mem_nil _
  | v :: elements =>
    refine List.forall_mem_cons.mpr
      ⟨displays v fun n member => ?_, displaysAll elements fun n member => ?_⟩
    · exact short n (List.mem_append_left _ member)
    · exact short n (List.mem_append_right _ member)

end

/-- **Colours are decoration.** If no whole number in a value is too long, then the value is
displayed with colours and without, at any depth of its arrays. The coloured text is the plain one
with every scalar, in order, between the sequence of its colour and a reset. If no string holds the
escape character, these are all the sequences in the text, and deleting them gives the plain one. -/
theorem display_colored (v : Value) (short : Short v.scalars)
    (clean : ∀ content, .string content ∈ v.scalars → .char '\x1b' ∉ content) :
    ∃ plain colored, v.display false = .ok plain ∧ v.display true = .ok colored ∧
      Decorates v.scalars plain colored ∧
      outside sequenceLength colored = plain ∧
      sequences colored
        = v.scalars.flatMap fun s => [sequence (ofKind s.kind).code, sequence 0] := by
  obtain ⟨plain, colored, uncolored, painted, decorates⟩ := displays v short
  refine ⟨plain, colored, uncolored, painted, decorates, ?_, ?_⟩
  · have deleted := decorates.outside_append clean []
    rwa [List.append_nil, show outside sequenceLength [] = [] from rfl, List.append_nil] at deleted
  · have found := decorates.sequences_append clean []
    rwa [List.append_nil, show sequences [] = [] from rfl, List.append_nil] at found

/-- The array `[ [ ] [ "[92m" [ -7 ] ] true ]`. -/
def arrayOfArrays : Value :=
  .array [.array [], .array [.string "[92m", .array [.int (-7)]], .boolean true]

theorem display_colored_arrayOfArrays :
    Short arrayOfArrays.scalars ∧
    (∀ content, .string content ∈ arrayOfArrays.scalars → .char '\x1b' ∉ content) ∧
    ∃ plain colored, arrayOfArrays.display false = .ok plain ∧
      arrayOfArrays.display true = .ok colored ∧
      Decorates [.string "[92m", .int (-7), .boolean true] plain colored ∧
      outside sequenceLength colored = plain ∧
      sequences colored
        = [sequence 92, sequence 0, sequence 94, sequence 0, sequence 95, sequence 0] := by
  have scalars : arrayOfArrays.scalars = [.string "[92m", .int (-7), .boolean true] := rfl
  have short : Short arrayOfArrays.scalars := by
    intro n member
    have same : n = -7 := by simpa [scalars] using member
    subst same
    decide
  have clean : ∀ content, .string content ∈ arrayOfArrays.scalars →
      CodePoint.char '\x1b' ∉ content := by
    intro content member
    have same : content = ofString "[92m" := by simpa [scalars] using member
    subst same
    decide
  exact ⟨short, clean, display_colored arrayOfArrays short clean⟩

end Value

end PrefixCalc
