import PrefixCalc.Proofs.Position

/-!
# Offsets of places

A place is in a text if the text has its line and that line reaches to its column. It tells an
offset: how far the earlier lines reach, each with its line feed, and then the column. Offsets in a
text and places in it belong together one to one, and both are in the same order: a place on a line
stands in front of the start of the next line, so what places tell grows with them.
-/

namespace PrefixCalc

namespace Text

/-! ## §1 Lines one after the other -/

/-- More lines reach further. -/
theorem extent_take_mono (lines : List Text) {m n : Nat} (h : m ≤ n) :
    extent (lines.take m) ≤ extent (lines.take n) := by
  obtain ⟨between, split⟩ := List.take_prefix_take_left h
  rw [← split, extent_append]
  exact Nat.le_add_right _ _

/-- The next line starts behind a line and its line feed. -/
theorem extent_take_succ {lines : List Text} {n : Nat} {line : Text}
    (found : lines[n]? = some line) :
    extent (lines.take (n + 1)) = extent (lines.take n) + (line.length + 1) := by
  rw [List.take_add_one, found, Option.toList_some, extent_append]
  rfl

end Text

namespace Position

open Text

variable {text : Text} {p q : Position} {offset : Nat}

/-! ## §2 Places in a text -/

/-- The places in a text: on one of its lines, or right behind the last character of one. -/
def Within (text : Text) (p : Position) : Prop :=
  ∃ line ∈ (text.splitOn (.char '\n'))[p.line]?, p.column ≤ line.length

instance (text : Text) (p : Position) : Decidable (p.Within text) :=
  inferInstanceAs (Decidable (∃ line ∈ (text.splitOn (.char '\n'))[p.line]?,
    p.column ≤ line.length))

/-- The offset that a place tells: the earlier lines, each with its line feed, and the column. -/
def toOffset (text : Text) (p : Position) : Nat :=
  extent ((text.splitOn (.char '\n')).take p.line) + p.column

/-- A place in a text stands in front of the start of the next line. -/
theorem Within.toOffset_lt (inside : p.Within text) :
    p.toOffset text < extent ((text.splitOn (.char '\n')).take (p.line + 1)) := by
  obtain ⟨line, found, reaches⟩ := inside
  rw [toOffset, extent_take_succ found]
  -- behind the last character of the line there is still its line feed
  exact Nat.add_lt_add_left (Nat.lt_succ_of_le reaches) _

/-- A place in a text tells an offset in it. -/
theorem Within.toOffset_le_length (inside : p.Within text) : p.toOffset text ≤ text.length := by
  have all : extent ((text.splitOn (.char '\n')).take (p.line + 1)) ≤ text.length + 1 := by
    obtain ⟨line, found, -⟩ := inside
    obtain ⟨some, -⟩ := List.getElem?_eq_some_iff.mp found
    rw [← extent_splitOn_feed]
    simpa only [List.take_length] using extent_take_mono (text.splitOn (.char '\n')) some
  exact Nat.le_of_lt_succ (Nat.lt_of_lt_of_le inside.toOffset_lt all)

/-! ## §3 Order -/

/-- Of two places the earlier, if it is in the text, tells the smaller offset. -/
theorem Within.toOffset_lt_toOffset (inside : p.Within text) (before : p < q) :
    p.toOffset text < q.toOffset text := by
  rcases lt_def.mp before with earlier | ⟨same, left⟩
  · calc p.toOffset text
        < extent ((text.splitOn (.char '\n')).take (p.line + 1)) := inside.toOffset_lt
      _ ≤ extent ((text.splitOn (.char '\n')).take q.line) := extent_take_mono _ earlier
      _ ≤ q.toOffset text := Nat.le_add_right _ _
  · rw [toOffset, toOffset, same]
    exact Nat.add_lt_add_left left _

protected theorem lt_or_eq_or_gt (p q : Position) : p < q ∨ p = q ∨ q < p := by
  obtain ⟨line, column⟩ := p
  obtain ⟨line', column'⟩ := q
  simp only [lt_def, Position.mk.injEq]
  omega

/-- Two places in a text do not tell the same offset. -/
theorem Within.eq_of_toOffset_eq (first : p.Within text) (second : q.Within text)
    (same : p.toOffset text = q.toOffset text) : p = q := by
  rcases Position.lt_or_eq_or_gt p q with before | equal | behind
  · exact absurd same (Nat.ne_of_lt (first.toOffset_lt_toOffset before))
  · exact equal
  · exact absurd same (Nat.ne_of_gt (second.toOffset_lt_toOffset behind))

/-! ## §4 There and back -/

/-- The line that a cut falls into reaches to the cut. -/
theorem within_ofOffset_append (before behind : Text) :
    (ofOffset (before ++ behind) before.length).Within (before ++ behind) := by
  rw [ofOffset_append]
  refine ⟨_, getElem?_splitOn_append before behind, ?_⟩
  rw [List.length_append]
  exact Nat.le_add_right _ _

/-- The ended lines and the last line make up what stands in front of a cut. -/
theorem toOffset_ofOffset_append (before behind : Text) :
    (ofOffset (before ++ behind) before.length).toOffset (before ++ behind) = before.length := by
  obtain ⟨ended, later, lines, count, reach⟩ := exists_splitOn_append before behind
  rw [ofOffset_append, toOffset, lines, ← count, List.take_left, reach]

/-- The place of an offset in a text is in the text. -/
theorem within_ofOffset (inside : offset ≤ text.length) : (ofOffset text offset).Within text := by
  have cut := within_ofOffset_append (text.take offset) (text.drop offset)
  rwa [List.take_append_drop, List.length_take_of_le inside] at cut

/-- The place of an offset in a text tells the offset. -/
theorem toOffset_ofOffset (inside : offset ≤ text.length) :
    (ofOffset text offset).toOffset text = offset := by
  have cut := toOffset_ofOffset_append (text.take offset) (text.drop offset)
  rwa [List.take_append_drop, List.length_take_of_le inside] at cut

/-- A place in a text is the place of the offset that it tells. -/
theorem Within.ofOffset_toOffset (inside : p.Within text) :
    ofOffset text (p.toOffset text) = p := by
  have bound := inside.toOffset_le_length
  -- both tell the same offset, and both are in the text
  apply (within_ofOffset bound).eq_of_toOffset_eq inside
  exact toOffset_ofOffset bound

/-- **Places tell offsets.** An offset in a text, its end included, is located at its place, and
this is a place in the text: the text has the line, the line reaches to the column, and the earlier
lines with their line feeds and the column add up to the offset. Every place in the text is the
place of the offset that it tells. No two offsets have the same place, and of two offsets the
smaller has the earlier place. -/
theorem invertible_ofOffset (text : Text) :
    (∀ offset ≤ text.length,
      locate text offset
        = ((ofOffset text offset).line, ((ofOffset text offset).column : Int)) ∧
      (ofOffset text offset).Within text ∧ (ofOffset text offset).toOffset text = offset) ∧
    (∀ p : Position, p.Within text →
      p.toOffset text ≤ text.length ∧ ofOffset text (p.toOffset text) = p) ∧
    ∀ offset other,
      (ofOffset text offset = ofOffset text other ↔ offset = other) ∧
      (ofOffset text offset < ofOffset text other ↔ offset < other) := by
  refine ⟨?_, ?_, ?_⟩
  · intro offset inside
    exact ⟨locate_natCast text offset, within_ofOffset inside, toOffset_ofOffset inside⟩
  · intro p inside
    exact ⟨inside.toOffset_le_length, inside.ofOffset_toOffset⟩
  · intro offset other
    exact ⟨ofOffset_inj, ofOffset_lt_ofOffset_iff⟩

/-- A text with an empty line inside and another one behind its last line feed. -/
def emptyLinesText : Text := "ab\n\nc\n"

theorem invertible_ofOffset_emptyLinesText :
    6 ≤ emptyLinesText.length ∧
    (ofOffset emptyLinesText 6).Within emptyLinesText ∧
    (ofOffset emptyLinesText 6).toOffset emptyLinesText = 6 ∧
    (⟨1, 0⟩ : Position).Within emptyLinesText ∧
    ofOffset emptyLinesText ((⟨1, 0⟩ : Position).toOffset emptyLinesText) = ⟨1, 0⟩ := by
  obtain ⟨there, back, -⟩ := invertible_ofOffset emptyLinesText
  have inside : 6 ≤ emptyLinesText.length := by decide
  have within : (⟨1, 0⟩ : Position).Within emptyLinesText := by decide
  obtain ⟨-, placed, told⟩ := there 6 inside
  exact ⟨inside, placed, told, within, (back _ within).2⟩

end Position

end PrefixCalc
