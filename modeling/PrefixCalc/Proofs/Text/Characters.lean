import PrefixCalc.Binary64.Layout
import PrefixCalc.Json.Quoted
import PrefixCalc.Proofs.Text.Decimal

/-!
# Characters of written texts

Which characters occur in what is written: those of the parts in a joined text, and only a few
in a number. The JSON spelling of a text is on one line, whatever the text is.
-/

namespace PrefixCalc

open Text

variable {c : CodePoint}

/-! ## §1 Joined texts -/

theorem Text.forall_mem_join {P : CodePoint → Prop} {separator : Text} {parts : List Text}
    (between : ∀ c ∈ separator, P c) (inside : ∀ part ∈ parts, ∀ c ∈ part, P c) :
    ∀ c ∈ join separator parts, P c := by
  induction parts with
  | nil => exact List.forall_mem_nil P
  | cons part parts ih =>
    obtain ⟨first, others⟩ := List.forall_mem_cons.mp inside
    cases parts with
    | nil => rwa [join, List.intercalate_singleton]
    | cons next parts =>
      rw [join, List.intercalate_cons_cons]
      exact List.forall_mem_append.mpr ⟨List.forall_mem_append.mpr ⟨first, between⟩, ih others⟩

theorem Text.not_mem_join {separator : Text} {parts : List Text} (apart : c ∉ separator)
    (absent : ∀ part ∈ parts, c ∉ part) : c ∉ join separator parts := fun member =>
  forall_mem_join (P := (· ≠ c)) (fun _ among same => apart (same ▸ among))
    (fun part among _ inside same => absent part among (same ▸ inside)) c member rfl

/-- The first part, and every other one with the separator in front of it. -/
theorem Text.join_cons (separator part : Text) (parts : List Text) :
    join separator (part :: parts) = part ++ parts.flatMap (separator ++ ·) := by
  induction parts generalizing part with
  | nil => rw [join, List.intercalate_singleton, List.flatMap_nil, List.append_nil]
  | cons next parts ih =>
    rw [join, List.intercalate_cons_cons, ← join, ih, List.flatMap_cons]
    simp only [List.append_assoc]

/-! ## §2 Numbers -/

/-- The characters in which numbers are written, those without a value included. -/
def Text.isNumeric (c : CodePoint) : Bool := isDigit c || ("+-.aefin" : Text).contains c

/-- Nothing but characters of numbers stands in the text. -/
def Text.Numeric (text : Text) : Prop := ∀ c ∈ text, isNumeric c = true

instance (text : Text) : Decidable text.Numeric := inferInstanceAs (Decidable (∀ c ∈ text, _))

namespace Text

variable {front back text : Text}

theorem Numeric.append (first : front.Numeric) (second : back.Numeric) :
    (front ++ back).Numeric :=
  List.forall_mem_append.mpr ⟨first, second⟩

private theorem Numeric.of_subset (whole : text.Numeric) (part : front ⊆ text) : front.Numeric :=
  fun c member => whole c (part member)

private theorem Numeric.of_digits (all : ∀ c ∈ text, isDigit c = true) : text.Numeric := by
  intro c member
  rw [isNumeric, all c member, Bool.true_or]

private theorem numeric_ofNat (n : Nat) :
    (ofNat n).Numeric := .of_digits fun _ => isDigit_of_mem_ofNat

private theorem numeric_zeros (count : Nat) : (zeros count).Numeric :=
  .of_digits fun _ => isDigit_of_mem_zeros

theorem numeric_ofInt (n : Int) : (ofInt n).Numeric := by
  cases n with
  | ofNat n => exact numeric_ofNat n
  | negSucc n =>
    have sign : Numeric ['-'] := by decide
    exact sign.append (numeric_ofNat (n + 1))

end Text

namespace Binary64.Layout

variable {digits : Text} (layout : Layout)

private theorem numeric_positional (written : digits.Numeric) (exponent : Int) :
    (positional digits exponent).Numeric := by
  have point : Numeric "." ∧ Numeric "0." ∧ Numeric ".0" := by decide
  unfold positional
  dsimp only
  split
  · exact (point.2.1.append (numeric_zeros _)).append written
  split
  · exact (written.append (numeric_zeros _)).append point.2.2
  · have whole := written.of_subset (List.take_subset (exponent.toNat + 1) digits)
    have fraction := written.of_subset (List.drop_subset (exponent.toNat + 1) digits)
    exact (whole.append point.1).append fraction

private theorem numeric_scientific (written : digits.Numeric) (exponent : Int) :
    (layout.scientific digits exponent).Numeric := by
  have leading := written.of_subset (List.take_subset 1 digits)
  have others := written.of_subset (List.drop_subset 1 digits)
  have point : Numeric (if digits.length ≤ 1 then [] else ".") := by
    split <;> decide
  have mark : Numeric (if exponent < 0 then "e-" else "e+") := by
    split <;> decide
  have mantissa := (leading.append point).append others
  exact ((mantissa.append mark).append (numeric_zeros _)).append (numeric_ofNat exponent.natAbs)

private theorem numeric_magnitude (d : Digits) : (layout.magnitude d).Numeric := by
  -- without the zeros at their end the digits are still digits
  have written : (significantDigits d.digits).Numeric := by
    intro c member
    have inside := (List.dropWhile_sublist _).mem (List.mem_reverse.mp member)
    exact numeric_ofNat d.digits c (List.mem_reverse.mp inside)
  unfold magnitude
  dsimp only
  split
  · decide
  split
  · exact numeric_positional written _
  · exact layout.numeric_scientific written _

/-- **A double is written in characters of numbers**, whichever it is. -/
theorem numeric_write (x : Binary64) : (layout.write x).Numeric := by
  have sign : Numeric "-" := by decide
  have words : Numeric "inf" ∧ Numeric "-inf" ∧ Numeric "nan" := by decide
  cases x with
  | finite x =>
    have shown := layout.numeric_magnitude x.shortest
    unfold write
    dsimp only
    split
    · exact sign.append shown
    · exact shown
  | infinite negative =>
    unfold write
    dsimp only
    split
    · exact words.2.1
    · exact words.1
  | nan => exact words.2.2

private theorem positional_ne_nil (digits : Text) (exponent : Int) :
    positional digits exponent ≠ [] := by
  unfold positional
  dsimp only
  split
  · exact List.cons_ne_nil _ _
  split
  · exact List.append_ne_nil_of_right_ne_nil _ (List.cons_ne_nil _ _)
  · -- the point stands between two parts that may be empty
    apply List.append_ne_nil_of_left_ne_nil
    exact List.append_ne_nil_of_right_ne_nil _ (List.cons_ne_nil _ _)

/-- A magnitude has a point or an exponent, so its text is not empty. -/
theorem magnitude_ne_nil (d : Digits) : layout.magnitude d ≠ [] := by
  unfold magnitude
  dsimp only
  split
  · exact List.cons_ne_nil _ _
  split
  · exact positional_ne_nil _ _
  · exact List.append_ne_nil_of_right_ne_nil _ (ofNat_ne_nil _)

theorem write_ne_nil (x : Binary64) : layout.write x ≠ [] := by
  cases x with
  | finite x =>
    unfold write
    dsimp only
    split
    · exact List.cons_ne_nil _ _
    · exact layout.magnitude_ne_nil x.shortest
  | infinite negative => cases negative <;> exact List.cons_ne_nil _ _
  | nan => exact List.cons_ne_nil _ _

end Binary64.Layout

/-! ## §3 JSON -/

private theorem Text.newline_not_mem_hex (width n : Nat) : .char '\n' ∉ hex width n := by
  have digits : .char '\n' ∉ (Nat.toDigits 16 n).map CodePoint.char := by
    intro member
    obtain ⟨d, among, same⟩ := List.mem_map.mp member
    cases same
    -- the digits of a number are those of its sixteenth and one more
    induction n using Nat.strongRecOn with
    | ind n ih =>
      have last (k : Nat) : '\n' ≠ k.digitChar := (Nat.digitChar_ne '\n' rfl).symm
      rw [Nat.toDigits_eq_if (by decide)] at among
      split at among
      · exact last n (List.mem_singleton.mp among)
      · rcases List.mem_append.mp among with before | final
        · exact ih (n / 16) (by omega) (List.mem_map.mpr ⟨_, before, rfl⟩) before
        · exact last (n % 16) (List.mem_singleton.mp final)
  unfold hex
  dsimp only
  refine List.not_mem_append (fun member => ?_) digits
  cases isDigit_of_mem_zeros member

namespace Json

private theorem newline_not_mem_escapeUnit (unit : Nat) : .char '\n' ∉ escapeUnit unit :=
  List.not_mem_append (by decide) (newline_not_mem_hex 4 unit)

private theorem newline_not_mem_escape (c : CodePoint) : .char '\n' ∉ escape c := by
  unfold escape
  split
  · -- a quote or a backslash stands for itself behind a backslash
    rename_i special
    intro member
    simp at member
    simp [← member] at special
  -- the newline has an escape of its own, in which it does not occur
  split
  · decide
  rename_i notNewline
  split
  · decide
  split
  · decide
  split
  · decide
  split
  · decide
  split
  · exact fun member => notNewline (List.mem_singleton.mp member).symm
  split
  · exact newline_not_mem_escapeUnit _
  · exact List.not_mem_append (newline_not_mem_escapeUnit _) (newline_not_mem_escapeUnit _)

/-- **A text is on one line in JSON.** -/
theorem newline_not_mem_quoted (text : Text) : .char '\n' ∉ quoted text := by
  have inside : .char '\n' ∉ text.flatMap escape := by
    intro member
    obtain ⟨c, -, escaped⟩ := List.mem_flatMap.mp member
    exact newline_not_mem_escape c escaped
  exact List.not_mem_append (List.not_mem_append (by decide) inside) (by decide)

end Json

end PrefixCalc
