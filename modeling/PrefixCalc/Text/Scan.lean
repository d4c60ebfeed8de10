import PrefixCalc.Text.Basic

/-!
# Scanning for matches

A text is searched from left to right for stretches that a length function accepts. At
each position the function says how long the match there is, zero meaning none; behind
a match the search goes on where the match ends.
-/

namespace PrefixCalc.Text

/-- The matches from `offset` on, with their offsets, the next `skip` characters being
part of a match already found. -/
def scanFrom (matchLength : Text → Nat) : (skip offset : Nat) → Text → List (Nat × Text)
  | _, _, [] => []
  | skip + 1, offset, _ :: rest => scanFrom matchLength skip (offset + 1) rest
  | 0, offset, c :: rest =>
    match matchLength (c :: rest) with
    | 0 => scanFrom matchLength 0 (offset + 1) rest
    | more + 1 =>
      (offset, c :: rest.take more) :: scanFrom matchLength more (offset + 1) rest

/-- All matches in a text, from left to right, with their offsets. -/
def scan (matchLength : Text → Nat) (text : Text) : List (Nat × Text) :=
  scanFrom matchLength 0 0 text

/-- A match is never empty. -/
theorem ne_nil_of_mem_scanFrom {matchLength : Text → Nat} {skip offset : Nat} {text : Text}
    {m : Nat × Text} (h : m ∈ scanFrom matchLength skip offset text) : m.2 ≠ [] := by
  induction text generalizing skip offset with
  | nil => simp [scanFrom] at h
  | cons c rest ih =>
    cases skip with
    | succ skip => exact ih h
    | zero =>
      unfold scanFrom at h
      split at h
      · exact ih h
      · rcases List.mem_cons.mp h with rfl | h
        · simp
        · exact ih h

end PrefixCalc.Text
