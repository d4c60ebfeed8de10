import PrefixCalc.Proofs.Binary64.Shortest
import PrefixCalc.Proofs.Machine.Promise
import PrefixCalc.Proofs.Text.Characters
import PrefixCalc.Proofs.Token.Literal

/-!
# Values that can be written

Writing fails on a whole number with too many digits and on nothing else. The elements of an
array are literals, which are never too long, so the only value that cannot be written is such
a number by itself.
-/

namespace PrefixCalc

open Text

/-! ## §1 Forms of writing -/

/-- A whole number with too many digits to be written. -/
def Value.Long (v : Value) : Prop := ∃ n, v = .int n ∧ Limit.maxDigits < (ofNat n.natAbs).length

/-- A way to write scalars that fails on whole numbers only. -/
structure Writes (leaf : Scalar → Except Limit Text) : Prop where
  int : ∀ n, leaf (.int n) = Text.decimal n
  other : ∀ s, (∀ n, s ≠ .int n) → ∃ text, leaf s = .ok text

private theorem writes_text : Writes Scalar.text := by
  refine ⟨fun n => rfl, fun s other => ?_⟩
  cases s with
  | int n => exact absurd rfl (other n)
  | float x => exact ⟨_, rfl⟩
  | string s => exact ⟨_, rfl⟩
  | boolean b => exact ⟨_, rfl⟩

private theorem writes_logged : Writes Scalar.logged := by
  refine ⟨fun n => rfl, fun s other => ?_⟩
  cases s with
  | int n => exact absurd rfl (other n)
  | float x => exact ⟨_, rfl⟩
  | string s => exact ⟨_, rfl⟩
  | boolean b => exact ⟨_, rfl⟩

theorem writes_shown : Writes Scalar.shown := by
  refine ⟨fun n => rfl, fun s other => ?_⟩
  cases s with
  | int n => exact absurd rfl (other n)
  | float x => exact ⟨_, rfl⟩
  | string s => exact ⟨_, rfl⟩
  | boolean b => exact ⟨_, rfl⟩

private theorem writes_display : Writes (Scalar.display false) := by
  have plain : Scalar.display false = Scalar.shown := funext fun s => bind_pure s.shown
  rw [plain]
  exact writes_shown

/-- A double that is a whole number is within the range of doubles, so it is never too long. -/
theorem length_of_toInt? {x : Binary64} {n : Int} (h : x.toInt? = some n) :
    (ofNat n.natAbs).length ≤ Limit.maxDigits := by
  cases x with
  | infinite negative => cases h
  | nan => cases h
  | finite x =>
    simp only [Binary64.toInt?] at h
    split at h
    · have size : n.natAbs = x.units / Binary64.unitsPerOne := by
        cases h
        split
        · rw [Int.natAbs_neg, Int.natAbs_natCast]
        · rw [Int.natAbs_natCast]
      -- again for any limit
      have short : ∀ limit, 53 + 2045 ≤ limit → (ofNat n.natAbs).length ≤ limit := by
        intro limit le
        rw [length_ofNat_le_iff (by omega), size]
        calc x.units / Binary64.unitsPerOne ≤ x.units := Nat.div_le_self ..
          _ < 2 ^ 53 * 2 ^ 2045 := x.units_lt
          _ = 2 ^ (53 + 2045) := (pow_add ..).symm
          _ ≤ 2 ^ limit := Binary64.two_pow_mono le
          _ ≤ 10 ^ limit := Nat.pow_le_pow_left (by decide) limit
      exact short _ (by decide)
    · cases h

theorem writes_canonical : Writes Scalar.canonical := by
  refine ⟨fun n => rfl, fun s other => ?_⟩
  cases s with
  | int n => exact absurd rfl (other n)
  | string s => exact ⟨_, rfl⟩
  | boolean b => exact ⟨_, rfl⟩
  | float x =>
    unfold Scalar.canonical
    dsimp only
    cases whole : x.toInt? with
    | some n => exact ⟨ofInt n, decimal_of_short (length_of_toInt? whole)⟩
    | none =>
      cases x with
      | finite x => exact ⟨_, rfl⟩
      | infinite negative => exact ⟨_, rfl⟩
      | nan => exact ⟨_, rfl⟩

/-! ## §2 Values -/

/-- The promise that only scalars by themselves can be too long. -/
def shortLiterals : Promise where
  literal s := ∀ n, s = .int n → (ofNat n.natAbs).length ≤ Limit.maxDigits
  scalar _ := True
  scalar_of_literal _ _ := trivial

variable {leaf : Scalar → Except Limit Text} {v : Value}

theorem exists_leaf (writes : Writes leaf) {s : Scalar} (short : shortLiterals.literal s) :
    ∃ text, leaf s = .ok text := by
  by_cases whole : ∃ n, s = .int n
  · obtain ⟨n, rfl⟩ := whole
    exact ⟨_, (writes.int n).trans (decimal_of_short (short n rfl))⟩
  · exact writes.other s fun n same => whole ⟨n, same⟩

/-- The elements of an array can be written if each one can. -/
theorem exists_writeAll {enclose : List Text → Text} {elements : List Value}
    (each : ∀ v ∈ elements, ∃ part, v.write leaf enclose = .ok part) :
    ∃ parts, Value.writeAll leaf enclose elements = .ok parts := by
  induction elements with
  | nil => exact ⟨[], rfl⟩
  | cons v elements ih =>
    obtain ⟨⟨part, first⟩, others⟩ := List.forall_mem_cons.mp each
    obtain ⟨parts, rest⟩ := ih others
    refine ⟨part :: parts, ?_⟩
    rw [Value.writeAll, first, rest]
    rfl

/-- The elements of an array are written one by one. -/
theorem writeAll_eq_ok_iff {enclose : List Text → Text} {elements : List Value}
    {parts : List Text} :
    Value.writeAll leaf enclose elements = .ok parts ↔
      List.Forall₂ (fun v part => v.write leaf enclose = .ok part) elements parts := by
  induction elements generalizing parts with
  | nil =>
    rw [Value.writeAll, List.forall₂_nil_left_iff, Except.ok.injEq, eq_comm]
  | cons v elements ih =>
    rw [Value.writeAll, List.forall₂_cons_left_iff]
    cases first : v.write leaf enclose with
    | error limit => exact iff_of_false nofun fun ⟨_, _, impossible, _⟩ => nomatch impossible
    | ok text =>
      cases others : Value.writeAll leaf enclose elements with
      | error limit =>
        refine iff_of_false nofun fun ⟨_, later, _, written, _⟩ => ?_
        rw [ih.mpr written] at others
        cases others
      | ok texts =>
        constructor
        · rintro ⟨⟩
          exact ⟨text, texts, rfl, ih.mp others, rfl⟩
        · rintro ⟨_, later, same, written, rfl⟩
          cases same
          rw [ih.mpr written] at others
          cases others
          rfl

/-- Every part of a written array is that of an element. -/
theorem exists_of_mem_writeAll {enclose : List Text → Text} {elements : List Value}
    {parts : List Text} (h : Value.writeAll leaf enclose elements = .ok parts) {part : Text}
    (member : part ∈ parts) : ∃ v ∈ elements, v.write leaf enclose = .ok part := by
  have written := writeAll_eq_ok_iff.mp h
  clear h
  induction written with
  | nil => cases member
  | cons first _ ih =>
    rcases List.mem_cons.mp member with rfl | later
    · exact ⟨_, List.mem_cons_self, first⟩
    · obtain ⟨w, inside, shown⟩ := ih later
      exact ⟨w, List.mem_cons_of_mem _ inside, shown⟩

/-- **What can be written**: every value that is not a whole number of too many digits. -/
theorem exists_write (writes : Writes leaf) (enclose : List Text → Text)
    (kept : shortLiterals.OfValue v) (short : ¬ v.Long) :
    ∃ text, v.write leaf enclose = .ok text := by
  cases v with
  | array elements =>
    have each : ∀ v ∈ elements, ∃ part, v.write leaf enclose = .ok part := fun v member => by
      obtain ⟨s, rfl, first⟩ := kept v member
      exact exists_leaf writes first
    obtain ⟨texts, written⟩ := exists_writeAll each
    rw [Value.write, written]
    exact ⟨enclose texts, rfl⟩
  | scalar s =>
    rw [Value.write]
    apply exists_leaf writes
    rintro n rfl
    exact Nat.le_of_not_lt fun long => short ⟨n, rfl, long⟩

private theorem write_of_long (writes : Writes leaf) (enclose : List Text → Text) (long : v.Long) :
    v.write leaf enclose = .error .writtenDigits := by
  obtain ⟨n, rfl, digits⟩ := long
  exact (writes.int n).trans (decimal_of_long digits)

/-! ## §3 Texts, messages and canonical forms -/

private theorem not_long_array (elements : List Value) : ¬ (Value.array elements).Long := by
  rintro ⟨n, same, -⟩
  cases same

theorem not_long_string (s : Text) : ¬ (Value.string s).Long := by
  rintro ⟨n, same, -⟩
  cases same

theorem exists_text (kept : shortLiterals.OfValue v) (short : ¬ v.Long) :
    ∃ text, v.text = .ok text :=
  exists_write writes_text _ kept short

theorem text_of_long (long : v.Long) : v.text = .error .writtenDigits :=
  write_of_long writes_text _ long

theorem exists_logged (kept : shortLiterals.OfValue v) (short : ¬ v.Long) :
    ∃ text, v.logged = .ok text :=
  exists_write writes_logged _ kept short

theorem logged_of_long (long : v.Long) : v.logged = .error .writtenDigits :=
  write_of_long writes_logged _ long

theorem exists_display (kept : shortLiterals.OfValue v) (short : ¬ v.Long) :
    ∃ text, v.display false = .ok text :=
  exists_write writes_display _ kept short

theorem display_of_long (long : v.Long) : v.display false = .error .writtenDigits :=
  write_of_long writes_display _ long

/-- Canonical forms are asked of arrays only, and those have one. -/
theorem exists_canonical {elements : List Value} (kept : shortLiterals.OfValue (.array elements)) :
    ∃ text, (Value.array elements).canonical = .ok text :=
  exists_write writes_canonical _ kept (not_long_array elements)

/-! ## §4 Display -/

private theorem Scalar.shown_ne_nil {s : Scalar} {text : Text} (shown : s.shown = .ok text) :
    text ≠ [] := by
  cases s with
  | int n =>
    have written : Text.decimal n = .ok text := shown
    rw [eq_ofInt_of_decimal written]
    exact ofInt_ne_nil n
  | float x =>
    cases shown
    exact doubleLayout.write_ne_nil x
  | string s =>
    -- an empty string still has its quotes
    cases shown
    exact List.cons_ne_nil _ _
  | boolean b =>
    cases shown
    cases b <;> exact List.cons_ne_nil _ _

private theorem Scalar.display_ne_nil {s : Scalar} {colored : Bool} {text : Text}
    (displayed : s.display colored = .ok text) : text ≠ [] := by
  unfold Scalar.display at displayed
  cases shown : s.shown with
  | error limit =>
    rw [shown] at displayed
    cases displayed
  | ok plain =>
    rw [shown] at displayed
    cases displayed
    cases colored with
    | false => exact shown_ne_nil shown
    | true => exact List.cons_ne_nil _ _

/-- **No value is displayed as nothing**, with colours or without. -/
theorem Value.display_ne_nil {v : Value} {colored : Bool} {text : Text}
    (displayed : v.display colored = .ok text) : text ≠ [] := by
  cases v with
  | scalar s => exact Scalar.display_ne_nil displayed
  | array elements =>
    -- the brackets are always there
    rw [display, write] at displayed
    cases parts : writeAll (Scalar.display colored) bracketed elements with
    | error limit =>
      rw [parts] at displayed
      cases displayed
    | ok parts =>
      rw [parts] at displayed
      cases displayed
      unfold bracketed
      dsimp only
      split
      · exact List.cons_ne_nil _ _
      · exact List.cons_ne_nil _ _

/-- So no element of an array is displayed as nothing. -/
theorem Value.forall_ne_nil_of_writeAll {elements : List Value} {colored : Bool}
    {parts : List Text}
    (written : writeAll (Scalar.display colored) bracketed elements = .ok parts) :
    ∀ part ∈ parts, part ≠ [] := by
  intro part member
  obtain ⟨v, -, displayed⟩ := exists_of_mem_writeAll written member
  exact display_ne_nil displayed

end PrefixCalc
