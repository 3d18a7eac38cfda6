namespace LoxScript

/-!
# Finite maps from names

Scopes, method tables, field tables and source libraries all map names to
something.  A `NameMap` keeps its entries in ascending order of the names, one
entry a name, so that its list of names is the order in which a script's host
sees them.
-/

/-- A finite map from names, as a list of entries in ascending order. -/
structure NameMap (α : Type) where
  entries : List (String × α) := []
deriving Repr

namespace NameMap

/-- The map without entries. -/
def empty : NameMap α :=
  ⟨[]⟩

/-- The value stored for `name` in a list of entries. -/
def findIn (name : String) : List (String × α) → Option α
  | [] => none
  | (key, value) :: rest => if key = name then some value else findIn name rest

/-- Stores `value` for `name`, at the name's place in ascending order. -/
def insertIn (name : String) (value : α) : List (String × α) → List (String × α)
  | [] => [(name, value)]
  | (key, held) :: rest =>
      if key = name then (name, value) :: rest
      else if name < key then (name, value) :: (key, held) :: rest
      else (key, held) :: insertIn name value rest

/-- The value of `name`, if the map has one. -/
def find? (map : NameMap α) (name : String) : Option α :=
  findIn name map.entries

/-- Whether the map has a value for `name`. -/
def contains (map : NameMap α) (name : String) : Bool :=
  (map.find? name).isSome

/-- The map with `value` as the value of `name`, whatever it was before. -/
def insert (map : NameMap α) (name : String) (value : α) : NameMap α :=
  ⟨insertIn name value map.entries⟩

/-- The names of the map in ascending order. -/
def names (map : NameMap α) : List String :=
  map.entries.map Prod.fst

/-- The values of the map in the order of their names. -/
def values (map : NameMap α) : List α :=
  map.entries.map Prod.snd

/-- The map of a list of entries; of two entries with one name the later
counts. -/
def ofList (entries : List (String × α)) : NameMap α :=
  entries.foldl (fun map entry => map.insert entry.1 entry.2) empty

/-- Looking up the name just stored gives the stored value. -/
theorem findIn_insertIn_same
    (name : String)
    (value : α)
    (entries : List (String × α)) :
    findIn name (insertIn name value entries) = some value := by
  induction entries with
  | nil =>
      simp [insertIn, findIn]
  | cons entry rest inductionHypothesis =>
      obtain ⟨key, held⟩ := entry
      by_cases same : key = name
      · simp [insertIn, findIn, same]
      · by_cases before : name < key
        · simp [insertIn, findIn, same, before]
        · simp [insertIn, findIn, same, before, inductionHypothesis]

/-- Storing a value for one name leaves every other name alone. -/
theorem findIn_insertIn_other
    {name other : String}
    (different : name ≠ other)
    (value : α)
    (entries : List (String × α)) :
    findIn other (insertIn name value entries) = findIn other entries := by
  induction entries with
  | nil =>
      simp [insertIn, findIn, different]
  | cons entry rest inductionHypothesis =>
      obtain ⟨key, held⟩ := entry
      by_cases same : key = name
      · subst same
        simp [insertIn, findIn, different]
      · by_cases before : name < key
        · simp [insertIn, findIn, same, before, different]
        · simp [insertIn, findIn, same, before, inductionHypothesis]

/-- What `insert` does to every look-up. -/
theorem find?_insert
    (map : NameMap α)
    (name other : String)
    (value : α) :
    (map.insert name value).find? other =
      if name = other then some value else map.find? other := by
  by_cases same : name = other
  · subst same
    simp [insert, find?, findIn_insertIn_same]
  · simp [insert, find?, same, findIn_insertIn_other same]

end NameMap

end LoxScript
