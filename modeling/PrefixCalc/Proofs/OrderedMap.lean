import Mathlib.Data.List.Induction
import PrefixCalc.OrderedMap

/-!
# Maps made by insertion

A map that is made by inserting entries one after another has each key once, at the place
where it was inserted first, with the value that was inserted last.
-/

namespace PrefixCalc.OrderedMap

variable {κ α : Type} [DecidableEq κ]

/-! ## §1 Keys and values -/

private theorem ofList_append_singleton (entries : List (κ × α)) (entry : κ × α) :
    ofList (entries ++ [entry]) = (ofList entries).insert entry.1 entry.2 := by
  simp only [ofList, insertAll, List.foldl_append, List.foldl_cons, List.foldl_nil]

/-- Every key stands at the place of its first insertion. -/
theorem keys_ofList [BEq κ] [LawfulBEq κ] (entries : List (κ × α)) :
    (ofList entries).keys = (entries.map Prod.fst).eraseDups := by
  induction entries using List.reverseRecOn with
  | nil => rfl
  | append_singleton entries entry ih =>
    rw [ofList_append_singleton, keys_insert, ih, List.map_append, List.eraseDups_append]
    by_cases known : entry.1 ∈ entries.map Prod.fst
    · have none : [entry.1].removeAll (entries.map Prod.fst) = [] := by
        simp [List.removeAll, List.mem_map.mp known]
      rw [if_pos (List.mem_eraseDups.mpr known), List.map_singleton, none]
      simp
    · have some : [entry.1].removeAll (entries.map Prod.fst) = [entry.1] := by
        simp [List.removeAll, List.mem_map] at known ⊢
        exact known
      rw [if_neg (fun member => known (List.mem_eraseDups.mp member)), List.map_singleton, some,
        List.eraseDups_cons]
      rfl

/-- Every key has the value of its last insertion. -/
theorem get?_ofList (entries : List (κ × α)) (key : κ) :
    (ofList entries).get? key
      = (entries.reverse.find? fun entry => entry.1 = key).map Prod.snd := by
  induction entries using List.reverseRecOn with
  | nil => rfl
  | append_singleton entries entry ih =>
    rw [ofList_append_singleton, List.reverse_append, List.reverse_singleton,
      List.singleton_append]
    by_cases same : entry.1 = key
    · rw [← same, get?_insert_self]
      simp
    · rw [get?_insert_of_ne _ same, ih]
      simp [same]

/-- Every key has the value that stands behind no other one of the same key. -/
theorem get?_ofList_eq_some_iff {entries : List (κ × α)} {key : κ} {value : α} :
    (ofList entries).get? key = some value ↔
      ∃ earlier later, entries = earlier ++ (key, value) :: later ∧
        ∀ entry ∈ later, entry.1 ≠ key := by
  rw [get?_ofList]
  constructor
  · intro h
    obtain ⟨⟨_, _⟩, found, rfl⟩ := Option.map_eq_some_iff.mp h
    obtain ⟨same, later, earlier, split, others⟩ := List.find?_eq_some_iff_append.mp found
    obtain rfl := of_decide_eq_true same
    refine ⟨earlier.reverse, later.reverse, ?_, fun entry member => ?_⟩
    · rw [← List.reverse_reverse entries, split]
      simp
    · simpa using others entry (List.mem_reverse.mp member)
  · rintro ⟨earlier, later, rfl, others⟩
    have behind : (later.reverse.find? fun entry => decide (entry.1 = key)) = none := by
      simpa using others
    simp [behind]

/-- A key that was inserted is there, and no other one is new. -/
theorem contains_insert (map : OrderedMap κ α)
    (key other : κ) (value : α) :
    (map.insert key value).contains other = (decide (key = other) || map.contains other) := by
  by_cases same : key = other
  · subst same
    simp [contains]
  · simp [contains, get?_insert_of_ne map same, same]

/-! ## §2 Entries -/

/-- An insertion brings in one entry. -/
theorem mem_insert {map : OrderedMap κ α} {key : κ} {value : α} {entry : κ × α}
    (h : entry ∈ (map.insert key value).entries) : entry = (key, value) ∨ entry ∈ map.entries := by
  obtain ⟨entries⟩ := map
  show entry = (key, value) ∨ entry ∈ entries
  replace h : entry ∈ put key value entries := h
  induction entries with
  | nil => exact .inl (List.mem_singleton.mp h)
  | cons first rest ih =>
    rw [put] at h
    split at h
    · exact (List.mem_cons.mp h).imp_right (List.mem_cons_of_mem first)
    · rcases List.mem_cons.mp h with same | behind
      · exact .inr (same ▸ List.mem_cons_self)
      · exact (ih behind).imp_right (List.mem_cons_of_mem first)

theorem mem_of_get? {map : OrderedMap κ α} {key : κ} {value : α}
    (h : map.get? key = some value) : (key, value) ∈ map.entries := by
  obtain ⟨entry, found, rfl⟩ := Option.map_eq_some_iff.mp h
  have same : entry.1 = key := by simpa using List.find?_some found
  rw [← same]
  exact List.mem_of_find?_eq_some found

theorem mem_of_mem_ofList {entries : List (κ × α)} {entry : κ × α}
    (h : entry ∈ (ofList entries).entries) : entry ∈ entries := by
  induction entries using List.reverseRecOn with
  | nil => cases h
  | append_singleton entries last ih =>
    rw [ofList_append_singleton] at h
    rcases mem_insert h with rfl | before
    · exact List.mem_append_right entries (List.mem_singleton.mpr rfl)
    · exact List.mem_append_left [last] (ih before)

end PrefixCalc.OrderedMap
