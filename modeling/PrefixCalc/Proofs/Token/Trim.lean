import PrefixCalc.Proofs.Token.Line

/-!
# Blank characters at the ends

Blank characters in front of a text or behind it are no part of any string, since a string ends
with its quote, and they end no run that had not ended there anyway. So a text that is trimmed
has the same tokens, blank ones excepted, at places that differ by what was cut off in front.
-/

namespace PrefixCalc

open Text

variable {run text : Text}

/-- A text is blank characters, the text that is trimmed, and blank characters. -/
theorem Text.exists_trim (text : Text) :
    ∃ lead trail, text = lead ++ (trim text ++ trail) ∧ (∀ c ∈ lead, isBlank c = true) ∧
      ∀ c ∈ trail, isBlank c = true := by
  refine ⟨text.takeWhile isBlank, ((text.dropWhile isBlank).reverse.takeWhile isBlank).reverse,
    ?_, fun c => List.mem_takeWhile_imp, fun c member => ?_⟩
  · rw [trim, strip, ← List.reverse_append, List.takeWhile_append_dropWhile, List.reverse_reverse,
      List.takeWhile_append_dropWhile]
  · exact List.mem_takeWhile_imp (List.mem_reverse.mp member)

namespace Token

open Piece

private theorem significant_read_of_blank (all : ∀ c ∈ run, isBlank c = true) :
    significant (read run) = [] := by
  have none := significant_read_blank all []
  rwa [List.append_nil, read_nil] at none

/-- Blank characters behind a text add no token, also when the text ends with an open quote. -/
theorem significant_read_append_blank (all : ∀ c ∈ run, isBlank c = true) (text : Text) :
    significant (read (text ++ run)) = significant (read text) := by
  -- by the length, since what follows the first piece is a shorter text
  induction size : text.length using Nat.strongRecOn generalizing text with
  | ind n ih =>
    cases text with
    | nil => rw [List.nil_append, significant_read_of_blank all, read_nil]; rfl
    | cons c text =>
      obtain ⟨rest, split, taken⟩ := exists_taken c text
      generalize Piece.first c text = piece at split taken
      rw [split] at size ⊢
      have some := List.length_pos_iff.mpr (text_ne_nil taken)
      rw [List.length_append] at size
      by_cases ended : rest = [] ∧ ∃ blanks, piece = blank blanks
      · -- the text is blank, and so is what stands behind it
        obtain ⟨rfl, blanks, rfl⟩ := ended
        cases taken with
        | blank _ _ blankRun =>
          rw [List.append_nil, Piece.text, significant_read_of_blank blankRun]
          refine significant_read_of_blank fun d member => ?_
          rcases List.mem_append.mp member with member | member
          · exact blankRun d member
          · exact all d member
      · have noQuote : .char '"' ∉ run := fun member => by cases all _ member
        have taken' : Taken (rest ++ run) piece := by
          refine taken_gap taken (fun d first => all d (List.mem_of_mem_head? first))
            (.inr noQuote) ?_
          rintro rfl blanks rfl
          exact ended ⟨rfl, blanks, rfl⟩
        rw [List.append_assoc, significant_read_append taken', significant_read_append taken,
          ih rest.length (by omega) rest rfl]

/-- **Reading a trimmed text.** -/
theorem significant_read_trim (text : Text) :
    ∃ n, significant (read text) = (significant (read (trim text))).map (shift n) := by
  obtain ⟨lead, trail, split, blankLead, blankTrail⟩ := Text.exists_trim text
  refine ⟨lead.length, ?_⟩
  rw [← significant_read_append_blank blankTrail (trim text), ← significant_read_blank blankLead,
    ← split]

theorem lexemes_trim (text : Text) :
    (significant (read text)).map lexeme = (significant (read (trim text))).map lexeme := by
  obtain ⟨n, same⟩ := significant_read_trim text
  rw [same, List.map_map]
  rfl

end Token

end PrefixCalc
