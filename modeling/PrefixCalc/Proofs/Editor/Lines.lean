import Mathlib.Data.List.TakeWhile
import PrefixCalc.Editor.Cursor
import PrefixCalc.Proofs.Position
import PrefixCalc.Proofs.Text.Run

/-!
# Lines of an editor

An editor ends a line at every line boundary, the index only at a line feed. Every text has a part
in which all lines are ended, and a rest inside one line. So many lines have ended as there are line
feeds exactly if no line has another end; then the rest is what stands behind the last line feed.
-/

namespace PrefixCalc

/-! ## §1 Letters and line ends -/

namespace Text

/-- What names are made of are letters. -/
theorem isLetter_of_isNameLetter {c : CodePoint} (h : isNameLetter c = true) :
    isLetter c = true := by
  have bands : letterBands = 0x41 :: 0x5B :: 0x61 :: 0x7B :: letterBands.drop 4 := rfl
  rw [isLetter, bands]
  rcases (isNameLetter_iff c).mp h with ⟨above, below⟩ | ⟨above, below⟩
  · rw [inBands_of_le (by omega), inBands_of_le (by omega), inBands_of_le (by omega),
      inBands_of_lt (by omega)]
    rfl
  · rw [inBands_of_le (by omega), inBands_of_lt (by omega)]
    rfl

end Text

namespace Cursor

open Text

variable {text front back : Text} {c : CodePoint}

/-- No letter ends a line. -/
theorem isLetter_of_endsLine (h : endsLine c = true) : isLetter c = false := by
  have none : ∀ n ∈ [0x0A, 0x0B, 0x0C, 0x0D, 0x1C, 0x1D, 0x1E, 0x85, 0x2028, 0x2029],
      inBands letterBands n = false := by decide +kernel
  exact none c.toNat (List.contains_iff_mem.mp h)

theorem endsLine_of_isLetter (h : isLetter c = true) : endsLine c = false := by
  by_contra ends
  rw [isLetter_of_endsLine (Bool.not_eq_false _ ▸ ends)] at h
  cases h

/-! ## §2 Lines -/

private theorem joinFirst_append {ls : List Text} (some : ls ≠ []) (c : CodePoint)
    (more : List Text) :
    joinFirst c (ls ++ more) = joinFirst c ls ++ more := by
  cases ls with
  | nil => exact absurd rfl some
  | cons first others => rfl

theorem lines_pair (text : Text) :
    lines (.char '\r' :: .char '\n' :: text) = ("\r\n" : Text) :: lines text := by
  rw [lines]

private theorem lines_cons (single : c = .char '\r' → text.head? ≠ some (.char '\n')) :
    lines (c :: text) = if endsLine c then [c] :: lines text else joinFirst c (lines text) := by
  rw [lines]
  rintro rest rfl rfl
  exact single rfl rfl

private theorem lines_ne_nil (some : text ≠ []) : lines text ≠ [] := by
  cases text with
  | nil => exact absurd rfl some
  | cons c text =>
    unfold lines
    split
    · cases ‹_›
    · exact List.cons_ne_nil _ _
    · split
      · exact List.cons_ne_nil _ _
      · unfold joinFirst
        split <;> exact List.cons_ne_nil _ _

/-- The texts in which every line has an end. -/
inductive Ended : Text → Prop where
  | nil : Ended []
  | pair {rest : Text} (tail : Ended rest) : Ended (.char '\r' :: .char '\n' :: rest)
  | ending {c : CodePoint} {rest : Text} (ends : endsLine c = true)
      (single : c = .char '\r' → rest.head? ≠ some (.char '\n')) (tail : Ended rest) :
      Ended (c :: rest)
  | inside {c : CodePoint} {rest : Text} (inside : endsLine c = false) (some : rest ≠ [])
      (tail : Ended rest) : Ended (c :: rest)

theorem lines_cons_of_inside (inside : endsLine c = false) :
    lines (c :: text) = joinFirst c (lines text) := by
  have single : c = .char '\r' → text.head? ≠ some (.char '\n') := by
    rintro rfl
    exact absurd inside (by decide)
  rw [lines_cons single, if_neg (Bool.eq_false_iff.mp inside)]

/-- The lines of an ended text do not depend on the text behind it, unless that starts with a line
end. -/
theorem lines_append_of_ended (ended : Ended front)
    (begins : ∀ c ∈ back.head?, endsLine c = false) :
    lines (front ++ back) = lines front ++ lines back := by
  induction ended with
  | nil => rfl
  | @pair rest _ ih =>
    show lines (.char '\r' :: .char '\n' :: (rest ++ back)) = _
    rw [lines_pair, lines_pair, List.cons_append, ih]
  | @ending c rest ends single _ ih =>
    have single' : c = .char '\r' → (rest ++ back).head? ≠ some (.char '\n') := by
      intro isReturn feed
      cases rest with
      | nil => exact absurd (begins _ feed) (by decide)
      | cons d rest => exact single isReturn feed
    rw [List.cons_append, lines_cons single', lines_cons single, if_pos ends, if_pos ends, ih,
      List.cons_append]
  | inside inside some _ ih =>
    rw [List.cons_append, lines_cons_of_inside inside, lines_cons_of_inside inside, ih,
      joinFirst_append (lines_ne_nil some)]

/-- The first line of what follows goes on with the line that is not ended. -/
theorem lines_append_of_inside (inside : ∀ c ∈ front, endsLine c = false) (some : front ≠ []) :
    lines (front ++ back) = (front ++ (lines back).headD []) :: (lines back).tail := by
  induction front with
  | nil => exact absurd rfl some
  | cons c front ih =>
    obtain ⟨first, others⟩ := List.forall_mem_cons.mp inside
    rw [List.cons_append, lines_cons_of_inside first]
    by_cases none : front = []
    · subst none
      rw [List.nil_append]
      cases lines back <;> rfl
    · rw [ih others none]
      rfl

/-- Every text has lines that are ended, and a rest that is not. -/
theorem exists_ended_append (text : Text) :
    ∃ front back, text = front ++ back ∧ Ended front ∧ ∀ c ∈ back, endsLine c = false := by
  induction text using lines.induct with
  | case1 => exact ⟨[], [], rfl, .nil, nofun⟩
  | case2 rest ih =>
    obtain ⟨front, back, rfl, ended, inside⟩ := ih
    exact ⟨_, back, rfl, .pair ended, inside⟩
  | case3 c rest single ends ih =>
    obtain ⟨front, back, rfl, ended, inside⟩ := ih
    refine ⟨c :: front, back, rfl, .ending ends ?_ ended, inside⟩
    intro isReturn feed
    obtain ⟨others, rfl⟩ := List.head?_eq_some_iff.mp feed
    exact single (others ++ back) isReturn rfl
  | case4 c rest single notEnds ih =>
    obtain ⟨front, back, rfl, ended, inside⟩ := ih
    have insideLine : endsLine c = false := Bool.eq_false_iff.mpr notEnds
    by_cases none : front = []
    · subst none
      exact ⟨[], c :: back, rfl, .nil, List.forall_mem_cons.mpr ⟨insideLine, inside⟩⟩
    · exact ⟨c :: front, back, rfl, .inside insideLine none ended, inside⟩

/-! ## §3 Lines that line feeds end -/

/-- Whether a line feed ends every line of a text that has an end. -/
def FeedsEndLines (text : Text) : Prop :=
  ∀ line ∈ lines text, ∀ c ∈ line.getLast?, endsLine c = true → c = .char '\n'

instance (text : Text) : Decidable (FeedsEndLines text) :=
  inferInstanceAs (Decidable (∀ line ∈ lines text, ∀ c ∈ line.getLast?, _ → _))

private theorem ne_nil_of_mem_lines {line : Text} (h : line ∈ lines text) : line ≠ [] := by
  induction text using lines.induct with
  | case1 => cases h
  | case2 rest ih =>
    rw [lines_pair] at h
    rcases List.mem_cons.mp h with rfl | later
    · exact List.cons_ne_nil _ _
    · exact ih later
  | case3 c rest single ends ih =>
    rw [lines, if_pos ends] at h
    · rcases List.mem_cons.mp h with rfl | later
      · exact List.cons_ne_nil _ _
      · exact ih later
    · exact single
  | case4 c rest single notEnds ih =>
    rw [lines_cons_of_inside (Bool.eq_false_iff.mpr notEnds)] at h
    cases found : lines rest with
    | nil =>
      rw [found] at h
      rw [List.mem_singleton.mp h]
      exact List.cons_ne_nil _ _
    | cons first others =>
      rw [found] at h ih
      rcases List.mem_cons.mp h with rfl | later
      · exact List.cons_ne_nil _ _
      · exact ih (List.mem_cons_of_mem first later)

private theorem feedsEndLines_pair :
    FeedsEndLines (.char '\r' :: .char '\n' :: text) ↔ FeedsEndLines text := by
  rw [FeedsEndLines, lines_pair, List.forall_mem_cons]
  refine and_iff_right ?_
  rintro c last -
  cases last
  rfl

private theorem feedsEndLines_ending (ends : endsLine c = true)
    (single : c = .char '\r' → text.head? ≠ some (.char '\n')) :
    FeedsEndLines (c :: text) ↔ c = .char '\n' ∧ FeedsEndLines text := by
  rw [FeedsEndLines, lines_cons single, if_pos ends, List.forall_mem_cons]
  refine and_congr_left' ⟨fun feed => feed c rfl ends, ?_⟩
  rintro feed d last -
  cases last
  exact feed

private theorem feedsEndLines_inside (inside : endsLine c = false) (some : text ≠ []) :
    FeedsEndLines (c :: text) ↔ FeedsEndLines text := by
  rw [FeedsEndLines, FeedsEndLines, lines_cons_of_inside inside]
  cases found : lines text with
  | nil => exact absurd found (lines_ne_nil some)
  | cons first others =>
    have member : first ∈ lines text := found ▸ List.mem_cons_self
    obtain ⟨d, first, rfl⟩ := List.exists_cons_of_ne_nil (ne_nil_of_mem_lines member)
    rw [joinFirst, List.forall_mem_cons, List.forall_mem_cons, List.getLast?_cons_cons]

/-- The end of an ended text, which is a line feed if line feeds end the lines. -/
theorem Ended.getLast? (ended : Ended text) :
    ∀ c ∈ text.getLast?, endsLine c = true ∧ (FeedsEndLines text → c = .char '\n') := by
  induction ended with
  | nil => exact nofun
  -- The end of the text is that of its last line, so a line in front decides only if none follows.
  | @pair rest _ ih =>
    cases rest with
    | nil =>
      rintro c last
      cases last
      exact ⟨by decide, fun _ => rfl⟩
    | cons d rest =>
      rw [List.getLast?_cons_cons, List.getLast?_cons_cons, feedsEndLines_pair]
      exact ih
  | @ending c rest ends single _ ih =>
    rw [feedsEndLines_ending ends single]
    cases rest with
    | nil =>
      rintro d last
      cases last
      exact ⟨ends, And.left⟩
    | cons d rest =>
      rw [List.getLast?_cons_cons]
      exact fun e last => (ih e last).imp_right fun feed both => feed both.2
  | @inside c rest inside some _ ih =>
    rw [feedsEndLines_inside inside some]
    obtain ⟨d, rest, rfl⟩ := List.exists_cons_of_ne_nil some
    rw [List.getLast?_cons_cons]
    exact ih

/-- Every line feed ends a line, and only if no other line has an end are there no more lines. -/
theorem Ended.count_eq_iff (ended : Ended text) :
    text.count (.char '\n') ≤ (lines text).length ∧
    (text.count (.char '\n') = (lines text).length ↔ FeedsEndLines text) := by
  induction ended with
  | nil => exact ⟨Nat.le_refl _, fun _ => nofun, fun _ => rfl⟩
  | @pair rest _ ih =>
    have count : (CodePoint.char '\r' :: .char '\n' :: rest).count (.char '\n')
        = rest.count (.char '\n') + 1 := by
      simp
    -- the pair is one line and holds one feed
    rw [feedsEndLines_pair, lines_pair, count, List.length_cons, ← ih.2]
    omega
  | @ending c rest ends single _ ih =>
    rw [feedsEndLines_ending ends single, lines_cons single, if_pos ends, List.length_cons, ← ih.2]
    -- another end than a feed makes a line that no feed counts, and the rest cannot make up for it
    by_cases feed : c = .char '\n'
    · rw [feed, List.count_cons_self, and_iff_right rfl]
      omega
    · rw [List.count_cons_of_ne feed, iff_false_right fun both => feed both.1]
      omega
  | @inside c rest inside some _ ih =>
    have notFeed : c ≠ .char '\n' := by
      rintro rfl
      exact absurd inside (by decide)
    -- a character inside a line makes that line longer and adds none
    have length : (joinFirst c (lines rest)).length = (lines rest).length := by
      cases found : lines rest with
      | nil => exact absurd found (lines_ne_nil some)
      | cons first others => rfl
    rw [feedsEndLines_inside inside some, lines_cons_of_inside inside,
      List.count_cons_of_ne notFeed, length]
    exact ih

private theorem lines_of_inside (inside : ∀ c ∈ text, endsLine c = false) (some : text ≠ []) :
    lines text = [text] := by
  have whole : lines (text ++ []) = _ := lines_append_of_inside inside some
  rwa [List.append_nil, lines, List.headD_nil, List.append_nil] at whole

theorem head?_of_inside (inside : ∀ c ∈ text, endsLine c = false) :
    ∀ c ∈ text.head?, endsLine c = false :=
  fun c first => inside c (List.mem_of_mem_head? first)

theorem feedsEndLines_append (ended : Ended front) (inside : ∀ c ∈ back, endsLine c = false) :
    FeedsEndLines (front ++ back) ↔ FeedsEndLines front := by
  by_cases none : back = []
  · rw [none, List.append_nil]
  · rw [FeedsEndLines, lines_append_of_ended ended (head?_of_inside inside),
      lines_of_inside inside none, List.forall_mem_append]
    refine and_iff_left fun line member c last ends => ?_
    rw [List.mem_singleton.mp member] at last
    rw [inside c (List.mem_of_mem_getLast? last)] at ends
    cases ends

theorem lastLine_append_of_feeds (ended : Ended front) (feeds : FeedsEndLines front)
    (inside : ∀ c ∈ back, endsLine c = false) : lastLine (front ++ back) = back := by
  have stops : Stops (· ≠ .char '\n') back.reverse front.reverse := by
    refine .inr fun c last => ?_
    rw [List.head?_reverse] at last
    simp [(ended.getLast? c last).2 feeds]
  have oneLine : .char '\n' ∉ back := fun member => absurd (inside _ member) (by decide)
  rw [lastLine, List.reverse_append, takeWhile_append_of_stops stops]
  exact lastLine_of_not_mem oneLine

theorem count_append_of_inside (inside : ∀ c ∈ back, endsLine c = false) (front : Text) :
    (front ++ back).count (.char '\n') = front.count (.char '\n') := by
  have none : .char '\n' ∉ back := fun member => absurd (inside _ member) (by decide)
  rw [List.count_append, List.count_eq_zero.mpr none, Nat.add_zero]

end Cursor

end PrefixCalc
