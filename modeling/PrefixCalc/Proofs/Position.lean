import Mathlib.Data.List.Induction
import Mathlib.Data.List.TakeWhile
import PrefixCalc.Position

/-!
# Lines of a text

The place of an offset is the number of line feeds in front of it and the length of what stands
behind the last of them. So if a text is split at its line feeds, the line of the place is the one
that the offset lies in, the lines in front of it reach to its start, and the text goes on from its
column as it goes on from the offset. Places are ordered as offsets are.
-/

namespace PrefixCalc

/-! ## §1 First and last lines -/

namespace Text

/-- What stands in front of the first line feed. -/
def firstLine (text : Text) : Text := text.takeWhile (· ≠ .char '\n')

/-- What stands behind the last line feed. -/
def lastLine (text : Text) : Text := (text.reverse.takeWhile (· ≠ .char '\n')).reverse

variable {text before behind word : Text} {offset : Nat} {c : CodePoint}

private theorem firstLine_append_of_not_mem (oneLine : .char '\n' ∉ word) (behind : Text) :
    firstLine (word ++ behind) = word ++ firstLine behind := by
  refine List.takeWhile_append_of_pos fun c member => ?_
  simp only [ne_eq, decide_eq_true_eq]
  rintro rfl
  exact oneLine member

private theorem lastLine_append_feed (text : Text) : lastLine (text ++ [.char '\n']) = [] := by
  simp [lastLine]

private theorem lastLine_append_of_ne (other : c ≠ .char '\n') (text : Text) :
    lastLine (text ++ [c]) = lastLine text ++ [c] := by
  simp [lastLine, other]

theorem lastLine_of_not_mem (oneLine : .char '\n' ∉ text) : lastLine text = text := by
  have all : ∀ c ∈ text.reverse, (c ≠ .char '\n' : Bool) = true := by
    intro c member
    simp only [ne_eq, decide_eq_true_eq]
    rintro rfl
    exact oneLine (List.mem_reverse.mp member)
  rw [lastLine, List.takeWhile_eq_self_iff.mpr all, List.reverse_reverse]

private theorem feed_not_mem_lastLine (text : Text) : .char '\n' ∉ lastLine text := by
  intro member
  have notFeed := List.mem_takeWhile_imp (List.mem_reverse.mp member)
  simp at notFeed

/-- A text with a line feed is what stands in front of the last one, the feed, and its last line. -/
theorem exists_eq_append_lastLine (lines : .char '\n' ∈ text) :
    ∃ earlier, text = earlier ++ .char '\n' :: lastLine text := by
  induction text using List.reverseRecOn with
  | nil => cases lines
  | append_singleton text c ih =>
    by_cases feed : c = .char '\n'
    · subst feed
      exact ⟨text, by rw [lastLine_append_feed]⟩
    · have earlierFeed : .char '\n' ∈ text := by
        rcases List.mem_append.mp lines with member | last
        · exact member
        · exact absurd (List.mem_singleton.mp last).symm feed
      obtain ⟨earlier, split⟩ := ih earlierFeed
      refine ⟨earlier, ?_⟩
      rw [lastLine_append_of_ne feed, ← List.cons_append, ← List.append_assoc, ← split]

/-! ## §2 Split at line feeds -/

/-- How far lines reach, each with the line feed that ends it. -/
def extent : List Text → Nat
  | [] => 0
  | line :: lines => line.length + 1 + extent lines

theorem extent_append (lines more : List Text) :
    extent (lines ++ more) = extent lines + extent more := by
  induction lines with
  | nil => exact (Nat.zero_add _).symm
  | cons line lines ih =>
    rw [List.cons_append, extent, extent, ih]
    exact (Nat.add_assoc ..).symm

private theorem length_splitOn_feed (text : Text) :
    (text.splitOn (.char '\n')).length = text.count (.char '\n') + 1 := by
  induction text with
  | nil => rfl
  | cons c text ih =>
    rw [List.splitOn_cons_eq_if_modifyHead]
    by_cases feed : c = .char '\n'
    · simp [feed, ih]
    · simp [feed, ih]

private theorem splitOn_feed_eq_cons (text : Text) :
    text.splitOn (.char '\n') = firstLine text :: (text.splitOn (.char '\n')).tail := by
  by_cases lines : .char '\n' ∈ text
  · obtain ⟨first, rest, rfl, oneLine⟩ := List.eq_append_cons_of_mem lines
    have ends : firstLine (.char '\n' :: rest) = [] := by simp [firstLine]
    rw [List.splitOn_append_cons_self_of_not_mem oneLine, firstLine_append_of_not_mem oneLine, ends,
      List.append_nil]
    rfl
  · have whole := firstLine_append_of_not_mem lines []
    rw [List.append_nil] at whole
    rw [List.splitOn_eq_singleton lines, whole]
    simp [firstLine]

/-- All lines reach one behind the end of the text, since no line feed ends the last. -/
theorem extent_splitOn_feed (text : Text) :
    extent (text.splitOn (.char '\n')) = text.length + 1 := by
  induction text with
  | nil => rfl
  | cons c text ih =>
    rw [List.splitOn_cons_eq_if_modifyHead, List.length_cons]
    by_cases feed : c = .char '\n'
    · simp only [feed, beq_self_eq_true, if_true, extent, List.length_nil, ih]
      omega
    · -- the first line grows by the character
      rw [splitOn_feed_eq_cons, extent] at ih
      rw [splitOn_feed_eq_cons text]
      simp only [feed, beq_iff_eq, if_false, List.modifyHead_cons, extent, List.length_cons]
      omega

/-- **The lines at a cut**: those that have ended in front of it, the line that it falls into, and
those behind. -/
theorem exists_splitOn_append (before behind : Text) :
    ∃ ended later, (before ++ behind).splitOn (.char '\n')
        = ended ++ (lastLine before ++ firstLine behind) :: later ∧
      ended.length = before.count (.char '\n') ∧
      extent ended + (lastLine before).length = before.length := by
  by_cases lines : .char '\n' ∈ before
  · obtain ⟨earlier, split⟩ := exists_eq_append_lastLine lines
    have oneLine := feed_not_mem_lastLine before
    generalize lastLine before = last at split oneLine
    subst split
    -- the ended lines are those of what stands in front of the last line feed
    refine ⟨earlier.splitOn (.char '\n'), ((last ++ behind).splitOn (.char '\n')).tail, ?_, ?_, ?_⟩
    · rw [List.append_assoc, List.cons_append, List.splitOn_append_cons_self,
        ← firstLine_append_of_not_mem oneLine, ← splitOn_feed_eq_cons]
    · rw [length_splitOn_feed, List.count_append, List.count_cons_self,
        List.count_eq_zero.mpr oneLine]
    · rw [extent_splitOn_feed, List.length_append, List.length_cons]
      omega
  · refine ⟨[], ((before ++ behind).splitOn (.char '\n')).tail, ?_, ?_, ?_⟩
    · rw [lastLine_of_not_mem lines, ← firstLine_append_of_not_mem lines, List.nil_append,
        ← splitOn_feed_eq_cons]
    · rw [List.count_eq_zero.mpr lines, List.length_nil]
    · rw [lastLine_of_not_mem lines]
      exact Nat.zero_add _

/-- **The line of a cut**: as many lines stand in front of it as there are line feeds, and it goes
on with the first line of what stands behind the cut. -/
theorem getElem?_splitOn_append (before behind : Text) :
    ((before ++ behind).splitOn (.char '\n'))[before.count (.char '\n')]?
      = some (lastLine before ++ firstLine behind) := by
  obtain ⟨ended, later, lines, count, -⟩ := exists_splitOn_append before behind
  rw [lines, ← count, List.getElem?_append_right (Nat.le_refl _), Nat.sub_self,
    List.getElem?_cons_zero]

/-- The characters of a stretch of one line, if the text has that line. -/
def excerpt? (text : Text) (start : Position) (length : Nat) : Option Text :=
  (text.splitOn (.char '\n'))[start.line]?.map fun line => (line.drop start.column).take length

end Text

namespace Position

open Text

variable {text before behind word : Text} {offset : Nat}

/-! ## §3 Places -/

private theorem foldl_advance (text : Text) :
    text.foldl advance ⟨0, 0⟩ = ⟨text.count (.char '\n'), (lastLine text).length⟩ := by
  induction text using List.reverseRecOn with
  | nil => rfl
  | append_singleton text c ih =>
    rw [List.foldl_append, ih, List.foldl_cons, List.foldl_nil, advance, List.count_append]
    by_cases feed : c = .char '\n'
    · rw [if_pos feed, feed, lastLine_append_feed]
      rfl
    · rw [if_neg feed, lastLine_append_of_ne feed, List.length_append]
      simp [feed]

/-- The place of a cut is told by what stands in front of it. -/
theorem ofOffset_append (before behind : Text) :
    ofOffset (before ++ behind) before.length
      = ⟨before.count (.char '\n'), (lastLine before).length⟩ := by
  have inside : before.length - (before ++ behind).length = 0 := by
    rw [List.length_append]
    omega
  simp only [ofOffset, List.take_left, foldl_advance, inside, Nat.add_zero]

/-- **A word at its place**: a word inside one line is found on the line and at the column that
its offset is placed at. -/
theorem excerpt?_of_prefix (goesOn : word <+: text.drop offset) (inside : offset ≤ text.length)
    (oneLine : .char '\n' ∉ word) :
    excerpt? text (ofOffset text offset) word.length = some word := by
  obtain ⟨rest, behind⟩ := goesOn
  obtain ⟨before, rfl, rfl⟩ : ∃ before, text = before ++ (word ++ rest) ∧ before.length = offset :=
    ⟨text.take offset, by rw [behind, List.take_append_drop], List.length_take_of_le inside⟩
  rw [ofOffset_append, excerpt?, getElem?_splitOn_append, firstLine_append_of_not_mem oneLine]
  simp

/-! ## §4 Order -/

/-- The order of reading: by lines, and in a line by columns. -/
instance : LT Position :=
  ⟨fun p q => p.line < q.line ∨ p.line = q.line ∧ p.column < q.column⟩

theorem lt_def {p q : Position} :
    p < q ↔ p.line < q.line ∨ p.line = q.line ∧ p.column < q.column :=
  Iff.rfl

protected theorem lt_irrefl (p : Position) : ¬ p < p := by
  rw [lt_def]
  omega

protected theorem lt_trans {p q r : Position} (first : p < q) (second : q < r) : p < r := by
  rw [lt_def] at first second ⊢
  omega

private theorem lt_advance (p : Position) (c : CodePoint) : p < p.advance c := by
  rw [lt_def, advance]
  split
  · exact .inl (Nat.lt_succ_self _)
  · exact .inr ⟨rfl, Nat.lt_succ_self _⟩

private theorem ofOffset_lt_succ (text : Text) (offset : Nat) :
    ofOffset text offset < ofOffset text (offset + 1) := by
  by_cases inside : offset < text.length
  · rw [ofOffset_succ inside]
    exact lt_advance _ _
  · -- behind the end of the text the last line goes on
    have ended : text.length ≤ offset := Nat.le_of_not_lt inside
    simp only [ofOffset, List.take_of_length_le ended,
      List.take_of_length_le (Nat.le_succ_of_le ended)]
    refine .inr ⟨rfl, ?_⟩
    show _ + (offset - text.length) < _ + (offset + 1 - text.length)
    omega

/-- **Places are ordered as offsets are.** -/
theorem ofOffset_lt_ofOffset (text : Text) {offset other : Nat} (h : offset < other) :
    ofOffset text offset < ofOffset text other := by
  induction h with
  | refl => exact ofOffset_lt_succ text offset
  | step _ ih => exact Position.lt_trans ih (ofOffset_lt_succ text _)

/-- No two offsets have the same place. -/
theorem ofOffset_inj {text : Text} {offset other : Nat} :
    ofOffset text offset = ofOffset text other ↔ offset = other := by
  refine ⟨fun same => ?_, fun same => same ▸ rfl⟩
  rcases Nat.lt_trichotomy offset other with before | same' | behind
  · exact absurd (same ▸ ofOffset_lt_ofOffset text before) (Position.lt_irrefl _)
  · exact same'
  · exact absurd (same ▸ ofOffset_lt_ofOffset text behind) (Position.lt_irrefl _)

/-- Only what stands in front has the earlier place. -/
theorem ofOffset_lt_ofOffset_iff {text : Text} {offset other : Nat} :
    ofOffset text offset < ofOffset text other ↔ offset < other := by
  refine ⟨fun before => ?_, ofOffset_lt_ofOffset text⟩
  by_contra later
  rcases Nat.eq_or_lt_of_not_lt later with same | behind
  · rw [same] at before
    exact Position.lt_irrefl _ before
  · exact Position.lt_irrefl _ (Position.lt_trans before (ofOffset_lt_ofOffset text behind))

end Position

end PrefixCalc
