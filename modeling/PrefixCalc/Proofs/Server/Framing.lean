import PrefixCalc.Server.Connection

/-!
# Framing

A stretch of bytes falls into complete lines and what is left behind the last line feed, in one
way only. A line that is complete stays the same when more bytes arrive; what is left becomes
the front of the next line. So the lines of a stream do not hang on where it is cut.
-/

namespace PrefixCalc.Framing

variable {α : Type} {feed : α} {stream front back rest rest' : List α}
  {lines lines' : List (List α)}

/-! ## §1 Lines and what is left -/

/-- A list that starts with a feed has nothing in front of its first one. -/
theorem eq_nil_of_feed_first {more : List α} (absent : feed ∉ more)
    (same : feed :: front = more ++ feed :: back) : more = [] ∧ front = back := by
  cases more with
  | nil => exact ⟨rfl, (List.cons.inj same).2⟩
  | cons first more =>
    obtain ⟨rfl, -⟩ := List.cons.inj same
    exact absurd List.mem_cons_self absent

/-- What stands before the first feed, and what stands behind it, is the same in equal lists. -/
theorem eq_of_first_feed {line line' : List α} (absent : feed ∉ line) (absent' : feed ∉ line')
    (same : line ++ feed :: front = line' ++ feed :: back) : line = line' ∧ front = back := by
  -- the longer line would go on with the feed that ends the other
  rcases List.append_eq_append_iff.mp same with ⟨more, longer, behind⟩ | ⟨more, longer, behind⟩
  · have inLine : feed ∉ more := fun member => absent' (longer ▸ List.mem_append_right line member)
    obtain ⟨rfl, rest⟩ := eq_nil_of_feed_first inLine behind
    exact ⟨by rw [longer, List.append_nil], rest⟩
  · have inLine : feed ∉ more := fun member => absent (longer ▸ List.mem_append_right line' member)
    obtain ⟨rfl, rest⟩ := eq_nil_of_feed_first inLine behind
    exact ⟨by rw [longer, List.append_nil], rest.symm⟩

/-- A stretch that is spelled by lines, a feed behind each of them, and by what is left. -/
structure FallsInto (feed : α) (stream : List α) (lines : List (List α)) (rest : List α) :
    Prop where
  spelled : stream = lines.flatMap (· ++ [feed]) ++ rest
  whole : ∀ line ∈ lines, feed ∉ line
  unended : feed ∉ rest

namespace FallsInto

theorem of_not_mem (absent : feed ∉ rest) : FallsInto feed rest [] rest :=
  ⟨rfl, fun _ member => absurd member List.not_mem_nil, absent⟩

theorem cons {line : List α} (absent : feed ∉ line) (behind : FallsInto feed stream lines rest) :
    FallsInto feed (line ++ feed :: stream) (line :: lines) rest := by
  refine ⟨?_, List.forall_mem_cons.mpr ⟨absent, behind.whole⟩, behind.unended⟩
  rw [behind.spelled, List.flatMap_cons]
  simp only [List.append_assoc, List.cons_append, List.nil_append]

private theorem of_nil (h : FallsInto feed stream [] rest) : stream = rest := h.spelled

private theorem of_cons {line : List α} (h : FallsInto feed stream (line :: lines) rest) :
    ∃ behind, stream = line ++ feed :: behind ∧ feed ∉ line ∧ FallsInto feed behind lines rest := by
  obtain ⟨absent, others⟩ := List.forall_mem_cons.mp h.whole
  refine ⟨_, ?_, absent, rfl, others, h.unended⟩
  rw [h.spelled, List.flatMap_cons]
  simp only [List.append_assoc, List.cons_append, List.nil_append]

/-- **Only one way**: the stretch decides its lines and what is left. -/
theorem unique (first : FallsInto feed stream lines rest)
    (second : FallsInto feed stream lines' rest') : lines = lines' ∧ rest = rest' := by
  induction lines generalizing stream lines' with
  | nil =>
    obtain rfl := first.of_nil
    cases lines' with
    | nil => exact ⟨rfl, second.of_nil⟩
    | cons line' lines' =>
      obtain ⟨behind, rfl, -, -⟩ := second.of_cons
      exact absurd (List.mem_append_right line' List.mem_cons_self) first.unended
  | cons line lines ih =>
    obtain ⟨behind, rfl, absent, tail⟩ := first.of_cons
    cases lines' with
    | nil =>
      obtain rfl := second.of_nil
      exact absurd (List.mem_append_right line List.mem_cons_self) second.unended
    | cons line' lines' =>
      -- the first feed of the stretch is the one behind the first line, in both
      obtain ⟨behind', same, absent', tail'⟩ := second.of_cons
      obtain ⟨rfl, rfl⟩ := eq_of_first_feed absent absent' same
      obtain ⟨rfl, rfl⟩ := ih tail tail'
      exact ⟨rfl, rfl⟩

/-- When more arrives, it is cut together with what was left. -/
theorem append (first : FallsInto feed front lines rest)
    (second : FallsInto feed (rest ++ back) lines' rest') :
    FallsInto feed (front ++ back) (lines ++ lines') rest' := by
  refine ⟨?_, List.forall_mem_append.mpr ⟨first.whole, second.whole⟩, second.unended⟩
  calc front ++ back
      = lines.flatMap (· ++ [feed]) ++ (rest ++ back) := by
        rw [first.spelled, List.append_assoc]
    _ = (lines ++ lines').flatMap (· ++ [feed]) ++ rest' := by
        rw [second.spelled, List.flatMap_append, List.append_assoc]

end FallsInto

/-! ## §2 The split of the server -/

theorem fallsInto_split (bytes : List UInt8) :
    FallsInto lineFeed bytes (split bytes).1 (split bytes).2 := by
  induction bytes with
  | nil => exact .of_not_mem List.not_mem_nil
  | cons byte bytes ih =>
    unfold split
    dsimp only
    split
    · -- the byte ends an empty line
      rename_i ends
      subst ends
      have empty : lineFeed ∉ ([] : List UInt8) := List.not_mem_nil
      exact FallsInto.cons empty ih
    rename_i goesOn
    split
    · -- no line is complete yet, so the byte is left with the others
      rename_i none
      rw [none] at ih
      obtain ⟨spelled, -, unended⟩ := ih
      have same : bytes = (split bytes).2 := spelled
      rw [← same] at unended ⊢
      exact .of_not_mem (List.not_mem_cons_of_ne_of_not_mem (Ne.symm goesOn) unended)
    · rename_i line lines found
      -- the byte is the first one of the first line
      rw [found] at ih
      obtain ⟨spelled, whole, unended⟩ := ih
      obtain ⟨absent, others⟩ := List.forall_mem_cons.mp whole
      refine ⟨congrArg (byte :: ·) spelled, List.forall_mem_cons.mpr ⟨?_, others⟩, unended⟩
      exact List.not_mem_cons_of_ne_of_not_mem (Ne.symm goesOn) absent

theorem requests_append (lines lines' : List (List UInt8)) :
    requests (lines ++ lines') = requests lines ++ requests lines' := by
  simp only [requests, List.map_append, List.filter_append]

end PrefixCalc.Framing
