import Mathlib.Data.List.TakeWhile
import PrefixCalc.Token.Candidate

/-!
# Runs of characters

What a kind matches at the start of a text is decided by the run of characters of one class
that stands there. So a match does not change when more text is put behind, as long as the
run has ended before.
-/

namespace PrefixCalc

namespace Text

/-! ## §1 Classes -/

theorem isDigit_iff (c : CodePoint) : isDigit c = true ↔ 48 ≤ c.toNat ∧ c.toNat ≤ 57 := by
  simp only [isDigit, Bool.and_eq_true, decide_eq_true_eq]
  exact Iff.rfl

theorem isNameLetter_iff (c : CodePoint) : isNameLetter c = true ↔
    (97 ≤ c.toNat ∧ c.toNat ≤ 122) ∨ (65 ≤ c.toNat ∧ c.toNat ≤ 90) := by
  simp only [isNameLetter, Bool.or_eq_true, Bool.and_eq_true, decide_eq_true_eq]
  exact Iff.rfl

theorem lt_or_lt_of_isBlank {c : CodePoint} (h : isBlank c = true) :
    c.toNat < 33 ∨ 132 < c.toNat := by
  refine Decidable.byContradiction fun between => ?_
  -- between the change points 33 and 133 the fifth band decides
  have : c.toNat ≥ 33 ∧ c.toNat < 133 := by omega
  simp only [isBlank, blankBands] at h
  rw [inBands_of_le (by omega), inBands_of_le (by omega), inBands_of_le (by omega),
    inBands_of_le (by omega), inBands_of_lt (by omega)] at h
  cases h

/-- The characters that decimals are made of. -/
def isDecimalChar (c : CodePoint) : Bool := isDigit c || c = '.'

/-! ## §2 Runs that have ended -/

/-- No run of the class reaches from the start of `front` into `back`. -/
def Stops (p : CodePoint → Bool) (front back : Text) : Prop :=
  (∃ c ∈ front, p c = false) ∨ ∀ c ∈ back.head?, p c = false

variable {p q : CodePoint → Bool} {front back text : Text}

theorem Stops.tail {c : CodePoint} (h : Stops p (c :: front) back) (holds : p c = true) :
    Stops p front back := by
  rcases h with ⟨d, member, fails⟩ | fails
  · rcases List.mem_cons.mp member with rfl | member
    · simp [holds] at fails
    · exact .inl ⟨d, member, fails⟩
  · exact .inr fails

theorem Stops.dropWhile (h : Stops p front back) (le : ∀ c, q c = true → p c = true) :
    Stops p (front.dropWhile q) back := by
  induction front with
  | nil => exact h
  | cons c front ih =>
    cases holds : q c with
    | false => simpa [holds] using h
    | true => simpa [holds] using ih (h.tail (le c holds))

/-- A run that has ended by the end of a text has ended by then wherever it starts. -/
theorem Stops.of_suffix {suffix : Text} (part : suffix <:+ front) (nonempty : suffix ≠ [])
    (h : (∀ c ∈ front.getLast?, p c = false) ∨ ∀ c ∈ back.head?, p c = false) :
    Stops p suffix back := by
  obtain ⟨skipped, rfl⟩ := part
  refine h.imp (fun last => ?_) id
  refine ⟨suffix.getLast nonempty, List.getLast_mem nonempty, last _ ?_⟩
  simp [List.getLast?_append, List.getLast?_eq_some_getLast nonempty]

/-- A smaller class has shorter runs. -/
theorem Stops.mono (h : Stops p front back) (le : ∀ c, q c = true → p c = true) :
    Stops q front back := by
  have fails : ∀ c, p c = false → q c = false := by
    intro c notP
    cases holds : q c with
    | false => rfl
    | true => simp [le c holds] at notP
  rcases h with ⟨c, member, notP⟩ | notP
  · exact .inl ⟨c, member, fails c notP⟩
  · exact .inr fun c first => fails c (notP c first)

theorem takeWhile_append_of_stops (h : Stops p front back) :
    (front ++ back).takeWhile p = front.takeWhile p := by
  induction front with
  | nil =>
    rcases h with ⟨c, member, -⟩ | fails
    · cases member
    · cases back with
      | nil => rfl
      | cons d back => simp [fails d rfl]
  | cons c front ih =>
    cases holds : p c with
    | false => simp [holds]
    | true => simp [holds, ih (h.tail holds)]

theorem dropWhile_append_of_stops (h : Stops p front back) :
    (front ++ back).dropWhile p = front.dropWhile p ++ back := by
  induction front with
  | nil =>
    rcases h with ⟨c, member, -⟩ | fails
    · cases member
    · cases back with
      | nil => rfl
      | cons d back => simp [fails d rfl]
  | cons c front ih =>
    cases holds : p c with
    | false => simp [holds]
    | true => simp [holds, ih (h.tail holds)]

theorem runLength_append_of_stops (h : Stops p front back) :
    runLength p (front ++ back) = runLength p front := by
  rw [runLength, takeWhile_append_of_stops h, runLength]

theorem head?_dropWhile (p : CodePoint → Bool) (text : Text) :
    ∀ c ∈ (text.dropWhile p).head?, p c = false := by
  intro c first
  have := List.head?_dropWhile_not p text
  rw [Option.mem_def.mp first] at this
  exact this

theorem takeWhile_eq_nil_iff_head? (p : CodePoint → Bool) (text : Text) :
    text.takeWhile p = [] ↔ ∀ c ∈ text.head?, p c = false := by
  cases text with
  | nil => simp
  | cons c text => cases holds : p c <;> simp [holds]

theorem runLength_of_all (all : ∀ c ∈ text, p c = true) : runLength p text = text.length := by
  rw [runLength, List.takeWhile_eq_self_iff.mpr all]

theorem drop_runLength (text : Text) : text.drop (runLength p text) = text.dropWhile p := by
  calc text.drop (runLength p text)
      = (text.takeWhile p ++ text.dropWhile p).drop (runLength p text) := by
        rw [List.takeWhile_append_dropWhile]
    _ = text.dropWhile p := List.drop_left

/-- A word of the class is found at the start of the run or not at all. -/
theorem prefix_append_iff_of_stops {word : Text} (all : ∀ c ∈ word, p c = true)
    (h : Stops p front back) : word <+: front ++ back ↔ word <+: front := by
  refine ⟨fun found => ?_, fun found => found.trans (List.prefix_append front back)⟩
  induction word generalizing front with
  | nil => exact List.nil_prefix
  | cons w word ih =>
    cases front with
    | nil =>
      rcases h with ⟨c, member, -⟩ | fails
      · cases member
      · -- the word would go on in `back`, where the run does not
        cases back with
        | nil => simp at found
        | cons d back =>
          obtain ⟨rfl, -⟩ := List.cons_prefix_cons.mp found
          simp [all w (by simp)] at fails
    | cons c front =>
      -- the character is matched, so the run goes on behind it
      rw [List.cons_append] at found
      obtain ⟨rfl, behind⟩ := List.cons_prefix_cons.mp found
      have later := ih (fun d member => all d (by simp [member])) (h.tail (all w (by simp))) behind
      exact List.cons_prefix_cons.mpr ⟨rfl, later⟩

end Text

end PrefixCalc
