import PrefixCalc.Text.Scan

/-!
# Matches in parts of a text

The matches stand where they say, apart from each other, and wherever there is something to read
there is one. If no match reaches across a cut, then the matches in a text are those in front of
the cut and those behind it.
-/

namespace PrefixCalc.Text

variable {matchLength : Text → Nat} {front back text : Text} {skip offset : Nat}

/-! ## §1 Places -/

theorem scanFrom_add (skip offset shift : Nat) (text : Text) :
    scanFrom matchLength skip (offset + shift) text =
      (scanFrom matchLength skip offset text).map fun found => (found.1 + shift, found.2) := by
  induction text generalizing skip offset with
  | nil => rfl
  | cons c rest ih =>
    -- skipped, unmatched or matched, the character moves both offsets by one
    have next : offset + shift + 1 = offset + 1 + shift := by omega
    cases skip with
    | succ skip => rw [scanFrom, scanFrom, next, ih]
    | zero =>
      rw [scanFrom, scanFrom, next]
      cases matchLength (c :: rest) with
      | zero => exact ih 0 (offset + 1)
      | succ more => simp only [List.map_cons, ih]

/-- Where a scan starts changes the offsets of the matches and nothing else. -/
theorem map_snd_scanFrom (offset : Nat) (text : Text) :
    (scanFrom matchLength 0 offset text).map Prod.snd = (scan matchLength text).map Prod.snd := by
  have moved : scanFrom matchLength 0 (0 + offset) text = _ := scanFrom_add 0 0 offset text
  rw [Nat.zero_add] at moved
  rw [moved, List.map_map]
  rfl

theorem bounds_of_mem_scanFrom {found : Nat × Text}
    (h : found ∈ scanFrom matchLength skip offset text) :
    offset + skip ≤ found.1 ∧ found.1 + found.2.length ≤ offset + text.length := by
  induction text generalizing skip offset with
  | nil => simp [scanFrom] at h
  | cons c rest ih =>
    rw [List.length_cons]
    cases skip with
    | succ skip =>
      have := ih h
      omega
    | zero =>
      rw [scanFrom] at h
      split at h
      · have := ih h
        omega
      · -- the match that starts here, or one behind it
        rcases List.mem_cons.mp h with rfl | h
        · simp only [List.length_cons, List.length_take]
          omega
        · have := ih h
          omega

/-- A match ends before the next one starts. -/
theorem pairwise_scanFrom (skip offset : Nat) (text : Text) :
    (scanFrom matchLength skip offset text).Pairwise fun a b => a.1 + a.2.length ≤ b.1 := by
  induction text generalizing skip offset with
  | nil => exact List.Pairwise.nil
  | cons c rest ih =>
    cases skip with
    | succ skip => exact ih skip (offset + 1)
    | zero =>
      rw [scanFrom]
      split
      · exact ih 0 (offset + 1)
      · -- the other matches start behind what this one makes the scan skip
        refine List.Pairwise.cons (fun later member => ?_) (ih _ (offset + 1))
        have := bounds_of_mem_scanFrom member
        simp only [List.length_cons, List.length_take]
        omega

/-- A match stands in the text where it says, and it is as long as the kind reads there. -/
theorem exists_split_of_mem_scanFrom (short : ∀ text, matchLength text ≤ text.length)
    {found : Nat × Text} (h : found ∈ scanFrom matchLength skip offset text) :
    ∃ before behind, text = before ++ (found.2 ++ behind) ∧ found.1 = offset + before.length ∧
      matchLength (found.2 ++ behind) = found.2.length := by
  induction text generalizing skip offset with
  | nil => simp [scanFrom] at h
  | cons c rest ih =>
    -- a match behind the first character has that character in front of it
    have later : ∀ skip, found ∈ scanFrom matchLength skip (offset + 1) rest →
        ∃ before behind, c :: rest = before ++ (found.2 ++ behind) ∧
          found.1 = offset + before.length ∧ matchLength (found.2 ++ behind) = found.2.length := by
      intro skip member
      obtain ⟨before, behind, split, place, length⟩ := ih member
      refine ⟨c :: before, behind, ?_, ?_, length⟩
      · rw [List.cons_append, ← split]
      · rw [List.length_cons]
        omega
    cases skip with
    | succ skip => exact later skip h
    | zero =>
      rw [scanFrom] at h
      split at h
      · exact later 0 h
      · rename_i more length
        -- the match starts here, or the rest has it behind the skipped characters
        rcases List.mem_cons.mp h with rfl | h
        · have fits := short (c :: rest)
          rw [length, List.length_cons] at fits
          refine ⟨[], rest.drop more, ?_, rfl, ?_⟩
          · simp
          · simp only [List.cons_append, List.take_append_drop, length, List.length_cons,
              List.length_take]
            omega
        · exact later more h

/-- No place at which there is something to read is left out: it lies in one of the matches. -/
theorem exists_mem_scanFrom (short : ∀ text, matchLength text ≤ text.length) (skip offset : Nat)
    {before behind : Text} (split : text = before ++ behind) (past : skip ≤ before.length)
    (some : matchLength behind ≠ 0) :
    ∃ found ∈ scanFrom matchLength skip offset text,
      found.1 ≤ offset + before.length ∧ offset + before.length < found.1 + found.2.length := by
  induction text generalizing skip offset before with
  | nil =>
    obtain ⟨-, rfl⟩ := List.append_eq_nil_iff.mp split.symm
    exact absurd (Nat.le_zero.mp (short [])) some
  | cons c rest ih =>
    cases before with
    | nil =>
      -- the text starts here, and so does a match
      obtain rfl := Nat.le_zero.mp past
      rw [List.nil_append] at split
      subst split
      obtain ⟨more, length⟩ := Nat.exists_eq_succ_of_ne_zero some
      refine ⟨(offset, c :: rest.take more), ?_, Nat.le_refl _, ?_⟩
      · rw [scanFrom, length]
        exact List.mem_cons_self
      · simp only [List.length_cons, List.length_nil]
        omega
    | cons b before =>
      obtain ⟨rfl, split'⟩ := List.cons.inj split
      have next : offset + (c :: before).length = offset + 1 + before.length := by
        rw [List.length_cons]
        omega
      rw [List.length_cons] at past
      rw [next]
      -- one character further on: it may lie in a match that was taken before, or in one taken here
      cases skip with
      | succ skip => exact ih skip (offset + 1) split' (by omega)
      | zero =>
        rw [scanFrom]
        cases length : matchLength (c :: rest) with
        | zero => exact ih 0 (offset + 1) split' (Nat.zero_le _)
        | succ more =>
          have fits := short (c :: rest)
          rw [length, List.length_cons] at fits
          by_cases inside : before.length < more
          · refine ⟨_, List.mem_cons_self, ?_, ?_⟩
            · show offset ≤ _
              omega
            · simp only [List.length_cons, List.length_take]
              omega
          · obtain ⟨found, member, place⟩ := ih more (offset + 1) split' (by omega)
            exact ⟨found, List.mem_cons_of_mem _ member, place⟩

/-! ## §2 Cuts -/

private theorem scanFrom_skip (offset : Nat) (front back : Text) :
    scanFrom matchLength front.length offset (front ++ back)
      = scanFrom matchLength 0 (offset + front.length) back := by
  induction front generalizing offset with
  | nil => rfl
  | cons c front ih =>
    have next : offset + (c :: front).length = offset + 1 + front.length := by
      rw [List.length_cons]
      omega
    rw [next, ← ih (offset + 1)]
    rfl

/-- A match that is all of `front` leaves the matches behind it. -/
theorem scanFrom_append_of_whole (nonempty : front ≠ [])
    (whole : matchLength (front ++ back) = front.length) (offset : Nat) :
    scanFrom matchLength 0 offset (front ++ back)
      = (offset, front) :: scanFrom matchLength 0 (offset + front.length) back := by
  cases front with
  | nil => exact absurd rfl nonempty
  | cons c front =>
    have next : offset + (c :: front).length = offset + 1 + front.length := by
      rw [List.length_cons]
      omega
    rw [List.cons_append] at whole ⊢
    -- the match skips the rest of `front`
    rw [scanFrom, whole, List.length_cons]
    simp only [List.take_left, scanFrom_skip]
    rw [← List.length_cons, next]

theorem scanFrom_of_whole (nonempty : text ≠ []) (whole : matchLength text = text.length)
    (offset : Nat) : scanFrom matchLength 0 offset text = [(offset, text)] := by
  have alone : scanFrom matchLength 0 offset (text ++ [])
      = (offset, text) :: scanFrom matchLength 0 (offset + text.length) [] :=
    scanFrom_append_of_whole nonempty (by rw [List.append_nil, whole]) offset
  rwa [List.append_nil] at alone

/-- If the text behind the cut changes no match in front of it, the matches are those of both
parts. -/
theorem scanFrom_append (short : ∀ text, matchLength text ≤ text.length)
    (same : ∀ suffix, suffix <:+ front → suffix ≠ [] →
      matchLength (suffix ++ back) = matchLength suffix)
    (inside : skip ≤ front.length) (offset : Nat) :
    scanFrom matchLength skip offset (front ++ back)
      = scanFrom matchLength skip offset front
        ++ scanFrom matchLength 0 (offset + front.length) back := by
  -- `skip` is free, since a match found in `front` skips inside it
  induction front generalizing skip offset with
  | nil =>
    obtain rfl : skip = 0 := by simpa using inside
    rfl
  | cons c front ih =>
    have same' : ∀ suffix, suffix <:+ front → suffix ≠ [] →
        matchLength (suffix ++ back) = matchLength suffix := fun suffix later =>
      same suffix (later.trans (List.suffix_cons c front))
    have next : offset + (c :: front).length = offset + 1 + front.length := by
      rw [List.length_cons]
      omega
    rw [next]
    cases skip with
    | succ skip => exact ih same' (by simpa using inside) (offset + 1)
    | zero =>
      have here := same (c :: front) List.suffix_rfl (by simp)
      have fits := short (c :: front)
      rw [List.cons_append] at here ⊢
      rw [scanFrom, scanFrom, here]
      cases length : matchLength (c :: front) with
      | zero => exact ih same' (Nat.zero_le _) (offset + 1)
      | succ more =>
        -- the match ends inside `front`, so it takes nothing of `back`
        rw [length, List.length_cons] at fits
        simp only [List.cons_append, List.cons.injEq, Prod.mk.injEq, true_and]
        exact ⟨List.take_append_of_le_length (by omega), ih same' (by omega) (offset + 1)⟩

theorem scanFrom_eq_nil
    (none : ∀ suffix, suffix <:+ text → suffix ≠ [] → matchLength suffix = 0)
    (skip offset : Nat) : scanFrom matchLength skip offset text = [] := by
  induction text generalizing skip offset with
  | nil => rfl
  | cons c rest ih =>
    have none' := fun suffix (later : suffix <:+ rest) =>
      none suffix (later.trans (List.suffix_cons c rest))
    cases skip with
    | succ skip => exact ih none' skip (offset + 1)
    | zero =>
      rw [scanFrom, none (c :: rest) List.suffix_rfl (by simp)]
      exact ih none' 0 (offset + 1)

end PrefixCalc.Text
