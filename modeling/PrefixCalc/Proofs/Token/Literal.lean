import PrefixCalc.Proofs.Binary64.Rounding
import PrefixCalc.Proofs.Token.OnePass

/-!
# Literals of a text

The language has no literal for a sign, for a string with a quote inside or for a whole number
of too many digits, so no token of any text denotes such a scalar.
-/

namespace PrefixCalc

open Text

/-! ## §1 Scalars of literals -/

/-- A number without a sign, possibly infinite. -/
def Binary64.Unsigned : Binary64 → Prop
  | .finite x => x.negative = false
  | .infinite negative => negative = false
  | .nan => False

/-- The scalars that literals denote. -/
def Scalar.OfLiteral : Scalar → Prop
  | .int n => 0 ≤ n ∧ (ofNat n.natAbs).length ≤ Limit.maxDigits
  | .float x => x.Unsigned
  | .string s => .char '"' ∉ s
  | .boolean _ => True

private theorem Binary64.unsigned_ofParts (significand scale : Nat) :
    (ofParts false significand scale).Unsigned := by
  unfold ofParts
  split <;> rfl

private theorem Binary64.unsigned_round (num den : Nat) : (round false num den).Unsigned := by
  unfold round
  dsimp only
  split
  · exact unsigned_ofParts ..
  · exact unsigned_ofParts ..

private theorem Binary64.unsigned_ofDecimal (significand : Nat) (exponent : Int) :
    (ofDecimal false significand exponent).Unsigned := by
  unfold ofDecimal
  dsimp only
  split
  · rfl
  split
  · rfl
  split
  · rfl
  split
  · exact unsigned_round ..
  · exact unsigned_round ..

private theorem Scalar.ofLiteral_ofDigits {digits : Text} (all : ∀ c ∈ digits, isDigit c = true) :
    (Scalar.ofDigits digits).OfLiteral := by
  unfold ofDigits
  split
  · rename_i short
    refine ⟨Int.natCast_nonneg _, ?_⟩
    rw [Int.natAbs_natCast, length_ofNat_le_iff (by decide)]
    -- leading zeros do not count, so the value may have fewer digits
    exact Nat.lt_of_lt_of_le (digitsValue_lt all) (Nat.pow_le_pow_right (by decide) short)
  · exact Binary64.unsigned_ofDecimal ..

/-! ## §2 Tokens -/

namespace Piece

variable {rest : Text} {piece : Piece} {t : Token} {kind : ScalarKind} {s : Scalar}

private theorem ofLiteral_of_mem_truths {offset : Nat} {run : Text} (member : t ∈ truths offset run)
    (lexeme : t.lexeme = .literal kind s) : s.OfLiteral := by
  induction run generalizing offset with
  | nil => cases member
  | cons c run ih =>
    rw [truths] at member
    split at member
    · rcases List.mem_cons.mp member with rfl | member
      · cases lexeme
        trivial
      · exact ih member
    split at member
    · rcases List.mem_cons.mp member with rfl | member
      · cases lexeme
        trivial
      · exact ih member
    · exact ih member

private theorem ofLiteral_of_mem_tokens (taken : Taken rest piece) {offset : Nat}
    (member : t ∈ piece.tokens offset) (lexeme : t.lexeme = .literal kind s) : s.OfLiteral := by
  -- a piece has one token, with the literal that its text spells, or none, or truth values
  cases taken with
  | quoted inside plain =>
    rw [List.mem_singleton.mp member] at lexeme
    cases lexeme
    exact fun quote => plain _ quote rfl
  | blank run nonempty all ends =>
    rw [List.mem_singleton.mp member] at lexeme
    cases lexeme
  | mark m =>
    rw [List.mem_singleton.mp member] at lexeme
    cases m <;> cases lexeme
  | decimal whole fraction wholeDigits fractionDigits some ends =>
    rw [List.mem_singleton.mp member] at lexeme
    cases lexeme
    exact Binary64.unsigned_ofDecimal ..
  | digits run nonempty all ends =>
    rw [List.mem_singleton.mp member] at lexeme
    cases lexeme
    exact Scalar.ofLiteral_ofDigits all
  | letters run nonempty all ends =>
    rw [tokens] at member
    split at member
    · rw [List.mem_singleton.mp member] at lexeme
      cases lexeme
    · exact ofLiteral_of_mem_truths member lexeme
  | quote | point | other => cases member

end Piece

open Piece in
/-- **What literals denote**: the scalar of every literal of a text can be written as one. -/
theorem Token.ofLiteral_of_mem_read {text : Text} {t : Token} {kind : ScalarKind} {s : Scalar}
    (member : t ∈ read text) (lexeme : t.lexeme = .literal kind s) : s.OfLiteral := by
  induction size : text.length using Nat.strongRecOn generalizing text t with
  | ind n ih =>
    cases text with
    | nil =>
      rw [read_nil] at member
      cases member
    | cons c text =>
      obtain ⟨behind, split, taken⟩ := exists_taken c text
      rw [split] at member size
      rw [read_append taken] at member
      rcases List.mem_append.mp member with first | later
      · exact ofLiteral_of_mem_tokens taken first lexeme
      · obtain ⟨u, before, rfl⟩ := List.mem_map.mp later
        have some := List.length_pos_iff.mpr (text_ne_nil taken)
        rw [List.length_append] at size
        exact ih behind.length (by omega) before lexeme rfl

end PrefixCalc
