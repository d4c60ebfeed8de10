import PrefixCalc.Text.Basic

/-!
# Positions

A place in a text as a line and a column, both counted from zero. Only the line feed
ends a line here.
-/

namespace PrefixCalc

/-- A line and a column within it. -/
structure Position where
  line : Nat
  column : Nat
  deriving DecidableEq, Repr

namespace Position

/-- The place behind a character. -/
def advance (p : Position) (c : CodePoint) : Position :=
  if c = '\n' then ⟨p.line + 1, 0⟩ else ⟨p.line, p.column + 1⟩

/-- The place of an offset; behind the end of the text the last line goes on. -/
def ofOffset (text : Text) (offset : Nat) : Position :=
  let p := (text.take offset).foldl advance ⟨0, 0⟩
  { p with column := p.column + (offset - text.length) }

/-- The line of an offset and how far the offset lies from the start of that line. An offset
below zero is counted from the end of the text to find its line, and the distance is
then that of the offset as it stands. -/
def locate (text : Text) (offset : Int) : Nat × Int :=
  let cut := if offset < 0 then (text.length + offset).toNat else offset.toNat
  let p := ofOffset text cut
  (p.line, p.column + (offset - cut))

/-- From zero on, an offset is located at its place. -/
theorem locate_natCast (text : Text) (offset : Nat) :
    locate text offset = ((ofOffset text offset).line, ((ofOffset text offset).column : Int)) := by
  have inside : ¬(offset : Int) < 0 := by omega
  simp [locate, inside]

/-- Inside the text, one more character is one more advance. -/
theorem ofOffset_succ {text : Text} {offset : Nat} (h : offset < text.length) :
    ofOffset text (offset + 1) = (ofOffset text offset).advance text[offset] := by
  have before : offset - text.length = 0 := by omega
  have after : offset + 1 - text.length = 0 := by omega
  simp only [ofOffset, before, after, Nat.add_zero, List.take_succ_eq_append_getElem h,
    List.foldl_append, List.foldl_cons, List.foldl_nil]

end Position

end PrefixCalc
