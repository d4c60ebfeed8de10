import PrefixCalc.Proofs.Json.Limit

/-!
# Fuel of reading JSON

The readers of values, elements and members call each other with less and less fuel, and without
any they would call a text malformed that is not. This never happens. Of two calls in a row one is
given less text, so twice the length of the text is enough, and with more fuel nothing else is read.
-/

namespace PrefixCalc.Json

variable {α β : Type} {room fuel : Nat} {text rest : Text} {found : Except Fault (α × Text)}

/-! ## §1 Ends of a text -/

private theorem length_skipSpace_le (text : Text) : (skipSpace text).length ≤ text.length :=
  (skipSpace_suffix text).length_le

/-- What is left behind spaces and one more character is shorter than the text. -/
private theorem length_lt_of_skipSpace {c : CodePoint} {after : Text}
    (behind : skipSpace rest = c :: after) (inside : rest <:+ text) :
    (skipSpace after).length < text.length := by
  calc (skipSpace after).length ≤ after.length := length_skipSpace_le after
    _ < (skipSpace rest).length := by rw [behind]; exact Nat.lt_succ_self _
    _ ≤ rest.length := length_skipSpace_le rest
    _ ≤ text.length := inside.length_le

/-- It makes no difference how a reader goes on with what is never left of the text. -/
private theorem Reads.bind_congr {next next' : α × Text → Except Fault β}
    (reads : Reads room text found)
    (same : ∀ a rest, rest <:+ text → next (a, rest) = next' (a, rest)) :
    found >>= next = found >>= next' := by
  cases reads with
  | read a rest behind => exact same a rest behind
  | malformed | exceeded => rfl

/-! ## §2 One unit more -/

/-- With this much fuel, or one unit more, the readers return the same for texts that it is enough
for. -/
structure Saturated (fuel : Nat) : Prop where
  value : ∀ room text, 2 * text.length ≤ fuel + 1 →
    readValue (fuel + 1) room text = readValue fuel room text
  elements : ∀ room read text, 2 * text.length ≤ fuel →
    readElements (fuel + 1) room read text = readElements fuel room read text
  members : ∀ room read text, 2 * text.length ≤ fuel →
    readMembers (fuel + 1) room read text = readMembers fuel room read text

private theorem saturated_zero : Saturated 0 := by
  -- there is no text to read, and every reader says so
  have empty {text : Text} (enough : 2 * text.length ≤ 1) : text = [] := by
    apply List.length_eq_zero_iff.mp
    omega
  refine ⟨?_, ?_, ?_⟩
  · intro room text enough
    rw [empty enough]
    rfl
  · intro room read text enough
    rw [empty (Nat.le_succ_of_le enough)]
    rfl
  · intro room read text enough
    rw [empty (Nat.le_succ_of_le enough)]
    rfl

private theorem Saturated.value_succ (saturated : Saturated fuel) (room : Nat) (text : Text)
    (enough : 2 * text.length ≤ fuel + 2) :
    readValue (fuel + 2) room text = readValue (fuel + 1) room text := by
  unfold readValue
  split
  · rfl
  · rename_i rest
    -- a container gives away its opening mark
    have inside := length_skipSpace_le rest
    rw [List.length_cons] at enough
    split
    · rfl
    split
    · rfl
    · apply saturated.elements
      omega
  · rename_i rest
    have inside := length_skipSpace_le rest
    rw [List.length_cons] at enough
    split
    · rfl
    split
    · rfl
    · apply saturated.members
      omega
  · rfl

private theorem Saturated.elements_succ (saturated : Saturated fuel) (room : Nat)
    (read : List Json) (text : Text) (enough : 2 * text.length ≤ fuel + 1) :
    readElements (fuel + 2) room read text = readElements (fuel + 1) room read text := by
  rw [readElements, readElements, saturated.value room text enough]
  apply Reads.bind_congr ((readsAll fuel).value room text)
  intro element rest behind
  dsimp only
  split
  · rfl
  · rename_i after comma
    have shorter := length_lt_of_skipSpace comma behind
    apply saturated.elements
    omega
  · rfl

private theorem Saturated.members_succ (saturated : Saturated fuel) (room : Nat)
    (read : OrderedMap Text Json) (text : Text) (enough : 2 * text.length ≤ fuel + 1) :
    readMembers (fuel + 2) room read text = readMembers (fuel + 1) room read text := by
  unfold readMembers
  split
  · rename_i quotedName
    have reads : Reads room quotedName (readString quotedName) := reads_readString quotedName
    apply reads.bind_congr
    intro name rest behind
    dsimp only
    split
    · rename_i inside colon
      -- the value stands behind the colon, and the next member behind the value
      have shorter := length_lt_of_skipSpace colon behind
      rw [List.length_cons] at enough
      rw [saturated.value room (skipSpace inside) (by omega)]
      apply Reads.bind_congr ((readsAll fuel).value room (skipSpace inside))
      intro value rest behind
      dsimp only
      split
      · rfl
      · rename_i after comma
        have shortest := length_lt_of_skipSpace comma behind
        apply saturated.members
        omega
      · rfl
    · rfl
  · rfl

/-! ## §3 Enough fuel -/

private theorem saturated (fuel : Nat) : Saturated fuel := by
  induction fuel with
  | zero => exact saturated_zero
  | succ fuel ih => exact ⟨ih.value_succ, ih.elements_succ, ih.members_succ⟩

/-- **Twice the length of a text is enough fuel** to read a value at its start: with more of it the
reader returns the same, be it a value, a complaint or a limit. -/
theorem readValue_eq_of_le {more : Nat} (enough : 2 * text.length ≤ fuel) (le : fuel ≤ more) :
    readValue more room text = readValue fuel room text := by
  induction le with
  | refl => rfl
  | step le ih =>
    rw [(saturated _).value room text (Nat.le_succ_of_le (Nat.le_trans enough le))]
    exact ih

/-- The fuel of `readAll` never runs out: with any larger amount the same is read. -/
theorem readAll_eq_of_le {more : Nat} (unmarked : text.head? ≠ some (.char '\uFEFF'))
    (le : 2 * text.length + 2 ≤ more) :
    readAll text = (do
      let (value, rest) ← readValue more Limit.maxNesting (skipSpace text)
      match skipSpace rest with
      | [] => return value
      | behind => wrong .extraData behind) := by
  have enough : 2 * (skipSpace text).length ≤ 2 * text.length + 2 := by
    have shorter := length_skipSpace_le text
    omega
  rw [readValue_eq_of_le enough le]
  unfold readAll
  split
  · exact absurd rfl unmarked
  · rfl

end PrefixCalc.Json
