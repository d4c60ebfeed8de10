import Mathlib.Data.List.Induction
import PrefixCalc.Proofs.Text.Scan
import PrefixCalc.Token.Reading

/-!
# The candidates that survive

Whatever the kinds and their order, the survivors lie apart from each other, so ordering
them by their offsets leaves no choice. And where a text can be cut so that no kind reads
across the cut, the survivors are those of both parts: what happens on one side of the cut
never decides between candidates on the other.
-/

namespace PrefixCalc

namespace Candidate

open Text List

variable {kinds : List TokenKind} {kind : TokenKind} {text front back : Text}
  {a b c : Candidate} {kept new : List Candidate} {n : Nat}

/-! ## §1 Membership -/

theorem ofKind_bounds (h : c ∈ ofKind kind text) :
    c.kind = kind ∧ c.start < c.stop ∧ c.stop ≤ text.length := by
  obtain ⟨found, member, rfl⟩ := List.mem_map.mp h
  have nonempty := List.length_pos_iff.mpr (ne_nil_of_mem_scanFrom member)
  have bounds := bounds_of_mem_scanFrom member
  refine ⟨rfl, ?_, ?_⟩
  · simp only [stop]
    omega
  · simp only [stop]
    omega

theorem pairwise_ofKind (kind : TokenKind) (text : Text) :
    (ofKind kind text).Pairwise fun a b => a.stop ≤ b.start :=
  List.pairwise_map.mpr (pairwise_scanFrom 0 0 text)

theorem select_append_singleton (kinds : List TokenKind) (kind : TokenKind) (text : Text) :
    select (kinds ++ [kind]) text = keepApart (select kinds text) (ofKind kind text) := by
  simp [select]

theorem mem_ofKind_of_mem_select (h : c ∈ select kinds text) :
    c.kind ∈ kinds ∧ c ∈ ofKind c.kind text := by
  induction kinds using List.reverseRecOn with
  | nil => simp [select] at h
  | append_singleton kinds kind ih =>
    rw [select_append_singleton, keepApart, List.mem_append, List.mem_filter] at h
    -- kept from the kinds before, or a match of the last kind
    rcases h with h | ⟨h, -⟩
    · exact ⟨List.mem_append_left _ (ih h).1, (ih h).2⟩
    · obtain rfl := (ofKind_bounds h).1
      exact ⟨by simp, h⟩

theorem select_bounds (h : c ∈ select kinds text) :
    c.start < c.stop ∧ c.stop ≤ text.length :=
  (ofKind_bounds (mem_ofKind_of_mem_select h).2).2

/-! ## §2 Order -/

private theorem overlaps_comm (a b : Candidate) : a.overlaps b = b.overlaps a := by
  simp only [overlaps, Bool.and_comm]

private theorem overlaps_eq_false_of_le (h : a.stop ≤ b.start) : a.overlaps b = false := by
  simp only [overlaps, Bool.and_eq_false_iff, decide_eq_false_iff_not]
  omega

/-- Survivors lie apart. -/
theorem pairwise_select (kinds : List TokenKind) (text : Text) :
    (select kinds text).Pairwise fun a b => a.overlaps b = false := by
  induction kinds using List.reverseRecOn with
  | nil => exact List.Pairwise.nil
  | append_singleton kinds kind ih =>
    rw [select_append_singleton, keepApart, List.pairwise_append]
    -- the new ones lie apart as matches of one kind, and from the others by the filter
    refine ⟨ih, ?_, fun a before b after => ?_⟩
    · exact ((pairwise_ofKind kind text).imp overlaps_eq_false_of_le).filter _
    · have free := (List.mem_filter.mp after).2
      simp only [Bool.not_eq_true', List.any_eq_false, Bool.not_eq_true] at free
      rw [overlaps_comm]
      exact free a before

/-- The survivors in the order of their offsets. -/
def inOrder (kinds : List TokenKind) (text : Text) : List Candidate :=
  (select kinds text).mergeSort fun a b => a.start ≤ b.start

theorem inOrder_perm (kinds : List TokenKind) (text : Text) :
    inOrder kinds text ~ select kinds text :=
  List.mergeSort_perm _ _

theorem inOrder_bounds (h : c ∈ inOrder kinds text) :
    c.start < c.stop ∧ c.stop ≤ text.length :=
  select_bounds ((inOrder_perm kinds text).mem_iff.mp h)

/-- Every survivor ends before the next one starts. -/
theorem pairwise_inOrder (kinds : List TokenKind) (text : Text) :
    (inOrder kinds text).Pairwise fun a b => a.stop ≤ b.start := by
  have sorted : (inOrder kinds text).Pairwise fun a b => decide (a.start ≤ b.start) = true := by
    refine List.pairwise_mergeSort (fun a b c => ?_) (fun a b => ?_) _
    · simp only [decide_eq_true_eq]
      exact Nat.le_trans
    · simp only [Bool.or_eq_true, decide_eq_true_eq]
      exact Nat.le_total _ _
  have apart : (inOrder kinds text).Pairwise fun a b => a.overlaps b = false :=
    (inOrder_perm kinds text).symm.pairwise (pairwise_select kinds text)
      fun {a b} h => (overlaps_comm b a).trans h
  refine (sorted.and apart).imp_of_mem fun {a b} first second h => ?_
  -- both are nonempty, so the one that starts first ends first
  have nonempty := inOrder_bounds second
  obtain ⟨before, free⟩ := h
  simp only [overlaps, Bool.and_eq_false_iff, decide_eq_false_iff_not, decide_eq_true_eq]
    at before free
  omega

/-- There is only one order in which survivors can stand. -/
theorem inOrder_eq {list : List Candidate} (same : select kinds text ~ list)
    (sorted : list.Pairwise fun a b => a.stop ≤ b.start) : inOrder kinds text = list := by
  refine List.Perm.eq_of_pairwise (fun a b first second before behind => ?_)
    (pairwise_inOrder kinds text) sorted ((inOrder_perm kinds text).trans same)
  -- two candidates that end before each other would be empty
  have := (inOrder_bounds first).1
  have := (select_bounds (same.mem_iff.mpr second)).1
  omega

/-! ## §3 Cuts -/

/-- A candidate as it is found with `n` more characters in front of the text. -/
def shift (n : Nat) (c : Candidate) : Candidate := { c with start := c.start + n }

private theorem stop_shift (n : Nat) (c : Candidate) : (c.shift n).stop = c.stop + n := by
  simp only [stop, shift]
  omega

private theorem overlaps_shift (n : Nat) (a b : Candidate) :
    (a.shift n).overlaps (b.shift n) = a.overlaps b := by
  simp only [overlaps, stop_shift]
  simp [shift]

private theorem overlaps_shift_of_stop_le (h : a.stop ≤ n) (b : Candidate) :
    a.overlaps (b.shift n) = false :=
  overlaps_eq_false_of_le (Nat.le_trans h (Nat.le_add_left n b.start))

/-- A kind reads on both sides of a cut as if the other side were not there. -/
def Parts (kind : TokenKind) (front back : Text) : Prop :=
  ofKind kind (front ++ back) = ofKind kind front ++ (ofKind kind back).map (shift front.length)

theorem parts_of_scanFrom
    (h : scanFrom kind.matchLength 0 0 (front ++ back)
      = scanFrom kind.matchLength 0 0 front
        ++ scanFrom kind.matchLength 0 (0 + front.length) back) :
    Parts kind front back := by
  rw [Parts, ofKind, scan, h, scanFrom_add, List.map_append, List.map_map]
  simp only [ofKind, scan, List.map_map]
  rfl

private theorem keepApart_perm {kept' : List Candidate} (same : kept ~ kept')
    (new : List Candidate) :
    keepApart kept new ~ keepApart kept' new := by
  have free : ∀ c : Candidate, kept.any c.overlaps = kept'.any c.overlaps := fun c => by
    rw [Bool.eq_iff_iff, List.any_eq_true, List.any_eq_true]
    simp only [same.mem_iff]
  simp only [keepApart, free]
  exact same.append_right _

/-- Candidates on one side of a cut are kept or not whatever lies on the other side. -/
theorem keepApart_append {keptBack newBack : List Candidate}
    (inside : ∀ c ∈ kept, c.stop ≤ n) (inside' : ∀ c ∈ new, c.stop ≤ n) :
    keepApart (kept ++ keptBack.map (shift n)) (new ++ newBack.map (shift n))
      ~ keepApart kept new ++ (keepApart keptBack newBack).map (shift n) := by
  -- in front of the cut only the candidates in front of it decide
  have front : new.filter (fun c => !(kept ++ keptBack.map (shift n)).any c.overlaps)
      = new.filter fun c => !kept.any c.overlaps := by
    refine List.filter_congr fun c member => ?_
    have free : (keptBack.map (shift n)).any c.overlaps = false := by
      simp [List.any_map, overlaps_shift_of_stop_le (inside' c member)]
    rw [List.any_append, free, Bool.or_false]
  -- and behind the cut only those behind it
  have back : (newBack.map (shift n)).filter
        (fun c => !(kept ++ keptBack.map (shift n)).any c.overlaps)
      = (newBack.filter fun c => !keptBack.any c.overlaps).map (shift n) := by
    rw [List.filter_map]
    refine congrArg (List.map (shift n)) (List.filter_congr fun c _ => ?_)
    have free : kept.any (c.shift n).overlaps = false := by
      simp only [List.any_eq_false, Bool.not_eq_true]
      intro a member
      rw [overlaps_comm]
      exact overlaps_shift_of_stop_le (inside a member) c
    simp only [Function.comp_apply, List.any_append, free, Bool.false_or, List.any_map]
    simp only [Function.comp_def, overlaps_shift]
  -- the newer ones in front of the cut change places with the older ones behind it
  have swap : ∀ a b c d : List Candidate, (a ++ b) ++ (c ++ d) ~ (a ++ c) ++ (b ++ d) := by
    intro a b c d
    rw [List.append_assoc, List.append_assoc]
    refine List.Perm.append_left a ?_
    rw [← List.append_assoc, ← List.append_assoc]
    exact List.perm_append_comm.append_right d
  simp only [keepApart, List.filter_append, front, back, List.map_append]
  exact swap _ _ _ _

/-- **Selection on both sides of a cut.** -/
theorem select_append (cut : ∀ kind ∈ kinds, Parts kind front back) :
    select kinds (front ++ back)
      ~ select kinds front ++ (select kinds back).map (shift front.length) := by
  induction kinds using List.reverseRecOn with
  | nil => exact List.Perm.refl _
  | append_singleton kinds kind ih =>
    have cut' := ih fun kind member => cut kind (List.mem_append_left _ member)
    rw [select_append_singleton, select_append_singleton, select_append_singleton,
      cut kind (by simp)]
    refine (keepApart_perm cut' _).trans (keepApart_append ?_ ?_)
    · exact fun c member => (select_bounds member).2
    · exact fun c member => (ofKind_bounds member).2.2

private theorem inOrder_append (cut : ∀ kind ∈ kinds, Parts kind front back) :
    inOrder kinds (front ++ back)
      = inOrder kinds front ++ (inOrder kinds back).map (shift front.length) := by
  -- both lists hold the same survivors, and both are in the only order there is
  refine inOrder_eq ?_ ?_
  · refine (select_append cut).trans (List.Perm.append ?_ (List.Perm.map _ ?_))
    · exact (inOrder_perm kinds front).symm
    · exact (inOrder_perm kinds back).symm
  · refine List.pairwise_append.mpr ⟨pairwise_inOrder kinds front, ?_, ?_⟩
    · refine List.pairwise_map.mpr ((pairwise_inOrder kinds back).imp fun {a b} h => ?_)
      rw [stop_shift]
      exact Nat.add_le_add_right h _
    · intro a before b behind
      obtain ⟨b, -, rfl⟩ := List.mem_map.mp behind
      exact Nat.le_trans (inOrder_bounds before).2 (Nat.le_add_left _ _)

/-! ## §4 Texts that one kind reads whole -/

theorem keepApart_nil (new : List Candidate) : keepApart [] new = new := by
  simp [keepApart]

theorem select_eq_nil (silent : ∀ kind ∈ kinds, ofKind kind text = []) :
    select kinds text = [] := by
  refine List.eq_nil_iff_forall_not_mem.mpr fun c member => ?_
  obtain ⟨known, found⟩ := mem_ofKind_of_mem_select member
  rw [silent _ known] at found
  cases found

/-- If a kind reads all of a text and no kind before it anything, it wins. -/
theorem select_of_whole {before after : List TokenKind}
    (silent : ∀ kind ∈ before, ofKind kind text = [])
    (whole : ofKind kind text = [⟨kind, 0, text⟩]) :
    select (before ++ kind :: after) text = [⟨kind, 0, text⟩] := by
  induction after using List.reverseRecOn with
  | nil =>
    rw [select_append_singleton, select_eq_nil silent, whole]
    rfl
  | append_singleton after later ih =>
    rw [← List.cons_append, ← List.append_assoc, select_append_singleton, ih, keepApart]
    -- every other candidate lies inside the whole text
    have lost : (ofKind later text).filter
        (fun c => !([⟨kind, 0, text⟩] : List Candidate).any c.overlaps) = [] := by
      refine List.filter_eq_nil_iff.mpr fun c member => ?_
      have bounds := ofKind_bounds member
      have inside : c.overlaps ⟨kind, 0, text⟩ = true := by
        rw [overlaps, Bool.and_eq_true, decide_eq_true_eq, decide_eq_true_eq]
        simp only [stop] at bounds ⊢
        omega
      simp [inside]
    rw [lost, List.append_nil]

theorem keepApart_whole (first : c ∈ kept) (inside : c.start < c.stop ∧ c.stop ≤ text.length) :
    keepApart kept [⟨kind, 0, text⟩] = kept := by
  have touched : kept.any (Candidate.overlaps ⟨kind, 0, text⟩) = true := by
    refine List.any_eq_true.mpr ⟨c, first, ?_⟩
    rw [overlaps, Bool.and_eq_true, decide_eq_true_eq, decide_eq_true_eq]
    simp only [stop] at inside ⊢
    omega
  simp [keepApart, touched]

end Candidate

/-! ## §5 Tokens -/

/-- A token as it is read with `n` more characters in front of the text. -/
def Token.shift (n : Nat) (t : Token) : Token := { t with offset := t.offset + n }

theorem Token.shift_shift (a b : Nat) (t : Token) : (t.shift a).shift b = t.shift (b + a) := by
  simp only [shift, Int.natCast_add, Int.add_assoc, Int.add_comm]

private theorem Candidate.toToken_shift (n : Nat) (c : Candidate) :
    (c.shift n).toToken = c.toToken.shift n := by
  simp only [toToken, shift, Token.shift, Int.natCast_add]

/-- **Reading on both sides of a cut.** -/
theorem Token.readWith_append {kinds : List TokenKind} {front back : Text}
    (cut : ∀ kind ∈ kinds, Candidate.Parts kind front back) :
    readWith kinds (front ++ back)
      = readWith kinds front ++ (readWith kinds back).map (shift front.length) := by
  have survivors := Candidate.inOrder_append cut
  simp only [Candidate.inOrder] at survivors
  simp only [readWith, survivors, List.map_append, List.map_map, Function.comp_def,
    Candidate.toToken_shift]

end PrefixCalc
