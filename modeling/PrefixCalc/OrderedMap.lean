/-!
# Insertion-ordered maps

A map that remembers the order in which its keys first appeared. Giving a key a new
value changes the value in place; the key keeps its position.
-/

namespace PrefixCalc

/-- Keys with their values, in the order in which the keys were first inserted. -/
structure OrderedMap (κ α : Type) where
  entries : List (κ × α) := []
  deriving Repr, DecidableEq

namespace OrderedMap

variable {κ α : Type} [DecidableEq κ]

/-! ## §1 Operations -/

/-- The list of entries with `key` bound to `value`, in place if the key is there. -/
def put (key : κ) (value : α) : List (κ × α) → List (κ × α)
  | [] => [(key, value)]
  | entry :: rest =>
    if entry.1 = key then (key, value) :: rest else entry :: put key value rest

/-- Binds `key` to `value`. -/
def insert (map : OrderedMap κ α) (key : κ) (value : α) : OrderedMap κ α :=
  ⟨put key value map.entries⟩

/-- The value of a key, if it is bound. -/
def get? (map : OrderedMap κ α) (key : κ) : Option α :=
  (map.entries.find? fun entry => entry.1 = key).map Prod.snd

/-- Whether a key is bound. -/
def contains (map : OrderedMap κ α) (key : κ) : Bool := (map.get? key).isSome

/-- The map without a key. -/
def erase (map : OrderedMap κ α) (key : κ) : OrderedMap κ α :=
  ⟨map.entries.filter fun entry => entry.1 ≠ key⟩

/-- The keys in order. -/
def keys (map : OrderedMap κ α) : List κ := map.entries.map Prod.fst

/-- How many keys are bound. -/
def size (map : OrderedMap κ α) : Nat := map.entries.length

/-- Inserts the given entries from first to last. -/
def insertAll (map : OrderedMap κ α) (entries : List (κ × α)) : OrderedMap κ α :=
  entries.foldl (fun acc entry => acc.insert entry.1 entry.2) map

/-- The map of a list of entries: a repeated key keeps its first position and its last value. -/
def ofList (entries : List (κ × α)) : OrderedMap κ α := insertAll {} entries

/-! ## §2 Look-up after insertion -/

theorem find?_put_self (key : κ) (value : α) (entries : List (κ × α)) :
    ((put key value entries).find? fun entry => entry.1 = key) = some (key, value) := by
  induction entries with
  | nil => simp [put]
  | cons entry rest ih =>
    by_cases h : entry.1 = key
    · simp [put, h]
    · simp [put, h, ih]

theorem find?_put_of_ne {key other : κ} (h : key ≠ other) (value : α)
    (entries : List (κ × α)) :
    ((put key value entries).find? fun entry => entry.1 = other)
      = entries.find? fun entry => entry.1 = other := by
  induction entries with
  | nil => simp [put, h]
  | cons entry rest ih =>
    by_cases he : entry.1 = key
    · simp [put, he, h]
    · by_cases ho : entry.1 = other
      · simp [put, ho, h.symm]
      · simp [put, he, ho, ih]

/-- A key is bound to what was inserted last. -/
@[simp] theorem get?_insert_self (map : OrderedMap κ α) (key : κ) (value : α) :
    (map.insert key value).get? key = some value := by
  simp [get?, insert, find?_put_self]

/-- Inserting one key leaves the others alone. -/
theorem get?_insert_of_ne (map : OrderedMap κ α) {key other : κ} (h : key ≠ other)
    (value : α) : (map.insert key value).get? other = map.get? other := by
  simp [get?, insert, find?_put_of_ne h]

/-- A key keeps its place, and a new key goes to the end. -/
theorem keys_insert (map : OrderedMap κ α) (key : κ) (value : α) :
    (map.insert key value).keys
      = if key ∈ map.keys then map.keys else map.keys ++ [key] := by
  obtain ⟨entries⟩ := map
  simp only [keys, insert]
  induction entries with
  | nil => simp [put]
  | cons entry rest ih =>
    by_cases h : entry.1 = key
    · simp [put, h]
    · have h' : key ≠ entry.1 := fun e => h e.symm
      by_cases hm : key ∈ rest.map Prod.fst
      · simp only [hm, if_true] at ih
        simp [put, h, ih, h', List.mem_cons, hm]
      · simp only [hm, if_false] at ih
        simp [put, h, ih, h', List.mem_cons, hm]

end OrderedMap

end PrefixCalc
