import Mathlib.Data.List.DropRight
import PrefixCalc.Editor.Workspace
import PrefixCalc.Proofs.Editor.Finding
import PrefixCalc.Proofs.Editor.Lines
import PrefixCalc.Proofs.Token.OnePass

/-!
# Words at constants

The index tells where the name of a constant stands by counting line feeds, and a name is a run of
the fifty-two unaccented letters. An editor that looks there for a word counts every line end and
takes the letters of all alphabets. So what it finds is the name with the letters that touch it, if
line feeds end the lines in front, and otherwise what it finds is in front of the name.
-/

namespace PrefixCalc

namespace Cursor

open Text

variable {front back before name behind : Text}

/-! ## §1 Words -/

/-- The letters at the start of a text stand on its first line. -/
theorem takeWhile_headD_lines (text : Text) :
    ((lines text).headD []).takeWhile isLetter = text.takeWhile isLetter := by
  induction text using lines.induct with
  | case1 => rfl
  | case2 rest _ =>
    have noLetter : isLetter (.char '\r') = false := isLetter_of_endsLine (by decide)
    rw [lines_pair, List.takeWhile_cons_of_neg (Bool.eq_false_iff.mp noLetter)]
    exact List.takeWhile_cons_of_neg (Bool.eq_false_iff.mp noLetter)
  | case3 c rest single ends _ =>
    have noLetter : isLetter c = false := isLetter_of_endsLine ends
    rw [lines, if_pos ends, List.takeWhile_cons_of_neg (Bool.eq_false_iff.mp noLetter)]
    · exact List.takeWhile_cons_of_neg (Bool.eq_false_iff.mp noLetter)
    · exact single
  | case4 c rest single notEnds ih =>
    have first : (joinFirst c (lines rest)).headD [] = c :: (lines rest).headD [] := by
      cases lines rest <;> rfl
    rw [lines_cons_of_inside (Bool.eq_false_iff.mpr notEnds), first, List.takeWhile_cons, ih,
      ← List.takeWhile_cons]

/-- The letters at the end of a text stand behind its last line end. -/
theorem rtakeWhile_append_of_ended (ended : Ended front) (back : Text) :
    (front ++ back).rtakeWhile isLetter = back.rtakeWhile isLetter := by
  have stops : Stops isLetter back.reverse front.reverse := by
    refine .inr fun c last => isLetter_of_endsLine (ended.getLast? c ?_).1
    rwa [← List.head?_reverse]
  rw [List.rtakeWhile, List.reverse_append, takeWhile_append_of_stops stops, List.rtakeWhile]

private theorem lines_append_name (ended : Ended front) (inside : ∀ c ∈ back, endsLine c = false)
    (letters : ∀ c ∈ name, isLetter c = true) (some : name ≠ []) (behind : Text) :
    lines (front ++ back ++ (name ++ behind))
      = lines front ++ (back ++ (name ++ (lines behind).headD [])) :: (lines behind).tail := by
  have joined : ∀ c ∈ back ++ name, endsLine c = false :=
    List.forall_mem_append.mpr ⟨inside, fun c member => endsLine_of_isLetter (letters c member)⟩
  have begins : ∀ c ∈ (back ++ name ++ behind).head?, endsLine c = false := by
    rw [List.head?_append_of_ne_nil _ (List.append_ne_nil_of_right_ne_nil _ some)]
    exact head?_of_inside joined
  rw [List.append_assoc, ← List.append_assoc back, lines_append_of_ended ended begins,
    lines_append_of_inside joined (List.append_ne_nil_of_right_ne_nil _ some), List.append_assoc]

/-- The word around the start of a name that stands behind lines that line feeds end. -/
theorem wordAt?_of_feeds (letters : ∀ c ∈ name, isLetter c = true) (some : name ≠ [])
    (feeds : FeedsEndLines before) (behind : Text) :
    wordAt? (before ++ (name ++ behind)) (.ofOffset (before ++ (name ++ behind)) before.length)
      = Option.some (before.rtakeWhile isLetter ++ (name ++ behind.takeWhile isLetter)) := by
  obtain ⟨front, back, rfl, ended, inside⟩ := exists_ended_append before
  rw [feedsEndLines_append ended inside] at feeds
  have line : (front ++ back).count (.char '\n') = (lines front).length := by
    rw [count_append_of_inside inside, ended.count_eq_iff.2.mpr feeds]
  have after : (name ++ (lines behind).headD []).takeWhile isLetter
      = name ++ behind.takeWhile isLetter := by
    rw [List.takeWhile_append_of_pos letters, takeWhile_headD_lines]
  rw [Position.ofOffset_append, line, lastLine_append_of_feeds ended feeds inside, wordAt?,
    lines_append_name ended inside letters some, List.getElem?_append_right (Nat.le_refl _),
    Nat.sub_self, List.getElem?_cons_zero]
  dsimp only
  rw [List.take_left, List.drop_left, after, rtakeWhile_append_of_ended ended]
  exact if_neg (by simp [some])

/-- If a line has another end, the word is looked for on a line that is over before the name. -/
theorem wordAt?_of_not_feeds (letters : ∀ c ∈ name, isLetter c = true) (some : name ≠ [])
    (other : ¬ FeedsEndLines before) (behind : Text) :
    wordAt? (before ++ (name ++ behind)) (.ofOffset (before ++ (name ++ behind)) before.length)
      = wordAt? before (.ofOffset (before ++ (name ++ behind)) before.length) := by
  obtain ⟨front, back, rfl, ended, inside⟩ := exists_ended_append before
  rw [feedsEndLines_append ended inside] at other
  have line : (front ++ back).count (.char '\n') < (lines front).length := by
    rw [count_append_of_inside inside]
    exact Nat.lt_of_le_of_ne ended.count_eq_iff.1 (mt ended.count_eq_iff.2.mp other)
  rw [Position.ofOffset_append, wordAt?, wordAt?, lines_append_name ended inside letters some,
    lines_append_of_ended ended (head?_of_inside inside), List.getElem?_append_left line,
    List.getElem?_append_left line]

/-- No letter stands next to what is between the two texts. -/
def Untouched (before behind : Text) : Prop :=
  (∀ c ∈ before.getLast?, isLetter c = false) ∧ ∀ c ∈ behind.head?, isLetter c = false

instance (before behind : Text) : Decidable (Untouched before behind) :=
  inferInstanceAs (Decidable (_ ∧ _))

private theorem untouched_iff : Untouched before behind ↔
    before.rtakeWhile isLetter = [] ∧ behind.takeWhile isLetter = [] := by
  rw [Untouched, List.rtakeWhile, List.reverse_eq_nil_iff, takeWhile_eq_nil_iff_head?,
    takeWhile_eq_nil_iff_head?, List.head?_reverse]

end Cursor

/-! ## §2 Constants -/

namespace Index

open Text Cursor

variable {text name : Text} {constant : Constant}

/-- The name of a constant stands in the text, at the place that the index tells. -/
theorem exists_split_of_get?_constants (h : (ofText text).constants.get? name = some constant) :
    ∃ before behind, text = before ++ (name ++ behind) ∧ name ≠ [] ∧
      (∀ c ∈ name, isNameLetter c = true) ∧ constant.place = .ofOffset text before.length := by
  have entry : (name, constant) ∈ (ofText text).constants.entries := OrderedMap.mem_of_get? h
  obtain ⟨t, member, lexeme, here⟩ := exists_key_of_constants_ofText entry
  obtain ⟨before, front, behind, split, offset, some, -, reads⟩ :=
    Token.exists_split_of_mem_read (List.mem_of_mem_filter member)
  obtain rfl := reads.eq_name lexeme
  refine ⟨before, behind, split, some, Token.isNameLetter_of_reads reads lexeme, ?_⟩
  rw [here, offset, placeIn, Int.toNat_natCast]

/-- What is shown at a place where the word is the name of a constant. -/
theorem hover?_of_wordAt? {w : Workspace} {uri : Text} {p : Position}
    (opened : w.get? uri = some (.ofText text))
    (known : (ofText text).constants.get? name = some constant)
    (word : wordAt? text p = some name) :
    w.hover? uri p
      = some ((Workspace.help.lookup name).getD (Workspace.describe name constant)) := by
  simp only [Workspace.hover?, opened, Document.ofText, word, known, Option.bind_eq_bind,
    Option.bind_some]
  cases Workspace.help.lookup name <;> rfl

/-- **Words at constants.** The name of every constant of a text stands at the place that the index
tells. If line feeds end the lines in front of it, the word that an editor finds there is the name
exactly if no letter stands next to the name. If another line end stands in front of it, the editor
looks for a word in front of the name, and finds what it would find there without it. Wherever the
word is the name, the editor shows what the name means. -/
theorem wordAt?_place (known : (ofText text).constants.get? name = some constant) :
    ∃ before behind, text = before ++ (name ++ behind) ∧
      constant.place = .ofOffset text before.length ∧
      (FeedsEndLines before →
        (wordAt? text constant.place = some name ↔ Untouched before behind)) ∧
      (¬ FeedsEndLines before → wordAt? text constant.place = wordAt? before constant.place) ∧
      ∀ (w : Workspace) (uri : Text), w.get? uri = some (.ofText text) →
        wordAt? text constant.place = some name →
        w.hover? uri constant.place
          = some ((Workspace.help.lookup name).getD (Workspace.describe name constant)) := by
  obtain ⟨before, behind, rfl, solid, nameLetters, place⟩ := exists_split_of_get?_constants known
  have letters : ∀ c ∈ name, isLetter c = true := fun c member =>
    isLetter_of_isNameLetter (nameLetters c member)
  refine ⟨before, behind, rfl, place, fun feeds => ?_, fun other => ?_, fun w uri opened word => ?_⟩
  · rw [place, wordAt?_of_feeds letters solid feeds, untouched_iff, Option.some_inj]
    constructor
    · intro word
      have lengths := congrArg List.length word
      simp only [List.length_append] at lengths
      exact ⟨List.eq_nil_of_length_eq_zero (by omega), List.eq_nil_of_length_eq_zero (by omega)⟩
    · rintro ⟨none, noneBehind⟩
      rw [none, noneBehind, List.nil_append, List.append_nil]
  · rw [place]
    exact wordAt?_of_not_feeds letters solid other behind
  · exact hover?_of_wordAt? opened known word

/-- A text in which a carriage return and a line feed end a line together. -/
def pairedText : Text := "\r\n(def x 1)"

theorem wordAt?_place_pairedText :
    (ofText pairedText).constants.get? "x" = some ⟨.int, ⟨1, 5⟩⟩ ∧
    wordAt? pairedText ⟨1, 5⟩ = some ("x" : Text) := by
  have tokens : Token.significant (Token.read pairedText) = [⟨.openParen, 2⟩,
      ⟨.identifier "def", 3⟩, ⟨.identifier "x", 7⟩, ⟨.literal .int (.int 1), 9⟩,
      ⟨.closeParen, 10⟩] := by
    rw [Token.read_eq_onePassFrom]
    decide +kernel
  have known : (ofText pairedText).constants.get? "x" = some ⟨.int, ⟨1, 5⟩⟩ := by
    rw [ofText_eq]
    rw [tokens]
    decide +kernel
  obtain ⟨before, behind, split, place, word, -⟩ := wordAt?_place known
  have here : Position.ofOffset pairedText 7 = ⟨1, 5⟩ := by decide +kernel
  have length : 7 = before.length := Position.ofOffset_inj.mp (here.trans place)
  have parts : ("\r\n(def " : Text) ++ (("x" : Text) ++ (" 1)" : Text))
      = before ++ (("x" : Text) ++ behind) := split
  obtain ⟨rfl, rest⟩ := List.append_inj parts length
  obtain rfl := List.append_cancel_left rest
  exact ⟨known, (word (by decide)).mpr (by decide +kernel)⟩

/-- A letter that no name has belongs to the word around a name, and a line separator in a string
ends a line for the editor and none for the index. -/
theorem wordAt?_ne_name :
    (ofText "(def \u00e9x 1)").constants.get? "x" = some ⟨.int, ⟨0, 6⟩⟩ ∧
    wordAt? "(def \u00e9x 1)" ⟨0, 6⟩ = some ("\u00e9x" : Text) ∧
    (ofText "\"\u2028\" (def x 1)").constants.get? "x" = some ⟨.int, ⟨0, 9⟩⟩ ∧
    wordAt? "\"\u2028\" (def x 1)" ⟨0, 9⟩ = none := by
  have accented : Token.significant (Token.read "(def \u00e9x 1)") = [⟨.openParen, 0⟩,
      ⟨.identifier "def", 1⟩, ⟨.identifier "x", 6⟩, ⟨.literal .int (.int 1), 8⟩,
      ⟨.closeParen, 9⟩] := by
    rw [Token.read_eq_onePassFrom]
    decide +kernel
  have separated : Token.significant (Token.read "\"\u2028\" (def x 1)") =
      [⟨.literal .string (.string "\u2028"), 0⟩, ⟨.openParen, 4⟩, ⟨.identifier "def", 5⟩,
        ⟨.identifier "x", 9⟩, ⟨.literal .int (.int 1), 11⟩, ⟨.closeParen, 12⟩] := by
    rw [Token.read_eq_onePassFrom]
    decide +kernel
  refine ⟨?_, by decide +kernel, ?_, by decide +kernel⟩
  · rw [ofText_eq]
    rw [accented]
    decide +kernel
  · rw [ofText_eq]
    rw [separated]
    decide +kernel

end Index

end PrefixCalc
