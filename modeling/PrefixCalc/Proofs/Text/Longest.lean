import PrefixCalc.Text.Basic

/-!
# Longest prefixes

A grammar says which texts there are and what each of them stands for. A scanner for it takes the
longest prefix that the grammar has: it takes nothing else, and it never stops short of one.
-/

namespace PrefixCalc.Text

variable {α : Type} {spells : Text → α → Prop} {scan : Text → Option (α × Text)}
  {text found after : Text} {value : α}

/-- The longest prefix of a text that a grammar has is there, and it spells `value`. -/
def LongestPrefix (spells : Text → α → Prop) (text : Text) (value : α) : Prop :=
  ∃ found, found <+: text ∧ spells found value ∧
    ∀ other v, other <+: text → spells other v → other.length ≤ found.length

/-- A scanner for a grammar. -/
structure Scans (spells : Text → α → Prop) (scan : Text → Option (α × Text)) : Prop where
  /-- Nothing runs long: what is taken is spelled. -/
  sound {text after : Text} {value : α} :
    scan text = some (value, after) → ∃ found, text = found ++ after ∧ spells found value
  /-- Nothing stops short: what is spelled is taken, and perhaps more. -/
  complete {found : Text} {value : α} :
    spells found value → ∀ behind, ∃ v more after,
      scan (found ++ behind) = some (v, after) ∧ behind = more ++ after ∧ (more = [] → v = value)

theorem Scans.map_fst_eq_some_iff (scans : Scans spells scan) :
    (scan text).map Prod.fst = some value ↔ LongestPrefix spells text value := by
  constructor
  · intro read
    obtain ⟨⟨_, after⟩, taken, rfl⟩ := Option.map_eq_some_iff.mp read
    obtain ⟨found, rfl, spelled⟩ := scans.sound taken
    refine ⟨found, List.prefix_append found after, spelled, fun other v part spelled' => ?_⟩
    obtain ⟨behind, split⟩ := part
    obtain ⟨_, more, rest, read', rfl, -⟩ := scans.complete spelled' behind
    -- the scanner takes the other prefix too, so that one ends no later
    rw [split, taken] at read'
    cases read'
    rw [← List.append_assoc] at split
    rw [← List.append_cancel_right split, List.length_append]
    exact Nat.le_add_right ..
  · rintro ⟨found, ⟨behind, rfl⟩, spelled, longest⟩
    obtain ⟨v, more, after, read, rfl, short⟩ := scans.complete spelled behind
    obtain ⟨taken, split, spelled'⟩ := scans.sound read
    rw [← List.append_assoc] at split
    have whole := List.append_cancel_right split
    have part : found ++ more <+: found ++ (more ++ after) :=
      ⟨after, List.append_assoc ..⟩
    -- what the scanner takes beyond the longest prefix is spelled too, hence nothing
    have le := longest _ v part (whole ▸ spelled')
    rw [List.length_append] at le
    rw [read, ← short (List.length_eq_zero_iff.mp (by omega))]
    rfl

theorem Scans.eq_none_iff (scans : Scans spells scan) :
    scan text = none ↔ ∀ found value, found <+: text → ¬ spells found value := by
  constructor
  · rintro nothing found value ⟨behind, rfl⟩ spelled
    obtain ⟨v, more, after, read, -⟩ := scans.complete spelled behind
    rw [nothing] at read
    cases read
  · intro nothing
    cases read : scan text with
    | none => rfl
    | some taken =>
      obtain ⟨found, rfl, spelled⟩ := scans.sound read
      exact absurd spelled (nothing found _ (List.prefix_append ..))

/-- What is spelled is read as a whole where nothing stands behind it. -/
theorem Scans.of_spelled (scans : Scans spells scan) (spelled : spells found value) :
    scan found = some (value, []) := by
  obtain ⟨v, more, after, read, nothing, short⟩ := scans.complete spelled []
  obtain ⟨rfl, rfl⟩ := List.append_eq_nil_iff.mp nothing.symm
  rwa [List.append_nil, short rfl] at read

end PrefixCalc.Text
