/-!
# Finite tables

A table maps finitely many keys to values and lists the keys in order of first arrival.

* `Table.find?`, `Table.contains`: the value of a key, if it has one.
* `Table.insert`: a table with one value written, in place if the key was there already.
* `Table.modify`: a table with the value of one key changed.
* `Table.find?_insert`, `Table.find?_modify`: what the two writes do to every look-up.
-/

namespace ExtensionMembers

/-- A finite map that lists its keys in order of first arrival. -/
structure Table (κ ν : Type) where
  /-- The keys with their values. -/
  entries : List (κ × ν)

namespace Table

variable {κ ν : Type} [DecidableEq κ]

/-- The table without keys. -/
def empty : Table κ ν := ⟨[]⟩

instance : Inhabited (Table κ ν) := ⟨empty⟩

/-- The keys in order of first arrival. -/
def keys (table : Table κ ν) : List κ := table.entries.map (·.1)

/-- The value of a key among some entries. -/
def findIn? (key : κ) : List (κ × ν) → Option ν
  | [] => none
  | entry :: rest => if entry.1 = key then some entry.2 else findIn? key rest

/-- The value of a key. -/
def find? (table : Table κ ν) (key : κ) : Option ν := findIn? key table.entries

/-- Whether the key has a value. -/
def contains (table : Table κ ν) (key : κ) : Bool := (table.find? key).isSome

/-- The entries with one value written. -/
def insertIn (key : κ) (value : ν) : List (κ × ν) → List (κ × ν)
  | [] => [(key, value)]
  | entry :: rest =>
    if entry.1 = key then (key, value) :: rest else entry :: insertIn key value rest

/-- The table with one value written: a present key keeps its place, a new key goes to the end. -/
def insert (table : Table κ ν) (key : κ) (value : ν) : Table κ ν :=
  ⟨insertIn key value table.entries⟩

/-- The entries with the value of one key changed. -/
def modifyIn (key : κ) (change : ν → ν) : List (κ × ν) → List (κ × ν)
  | [] => []
  | entry :: rest =>
    if entry.1 = key then (entry.1, change entry.2) :: rest
    else entry :: modifyIn key change rest

/-- The table with the value of one key changed; without that key, the table as it is. -/
def modify (table : Table κ ν) (key : κ) (change : ν → ν) : Table κ ν :=
  ⟨modifyIn key change table.entries⟩

theorem findIn?_insertIn (key other : κ) (value : ν) (entries : List (κ × ν)) :
    findIn? other (insertIn key value entries) =
      if key = other then some value else findIn? other entries := by
  induction entries with
  | nil => simp [insertIn, findIn?]
  | cons entry rest ih => grind [insertIn, findIn?]

/-- `insert` sets the value of its key and no other. -/
theorem find?_insert (table : Table κ ν) (key other : κ) (value : ν) :
    (table.insert key value).find? other =
      if key = other then some value else table.find? other :=
  findIn?_insertIn key other value table.entries

theorem findIn?_modifyIn (key other : κ) (change : ν → ν) (entries : List (κ × ν)) :
    findIn? other (modifyIn key change entries) =
      if key = other then (findIn? other entries).map change else findIn? other entries := by
  induction entries with
  | nil => simp [modifyIn, findIn?]
  | cons entry rest ih => grind [modifyIn, findIn?]

/-- `modify` reaches the value of its key and no other. -/
theorem find?_modify (table : Table κ ν) (key other : κ) (change : ν → ν) :
    (table.modify key change).find? other =
      if key = other then (table.find? other).map change else table.find? other :=
  findIn?_modifyIn key other change table.entries

/-- `modify` adds no key and moves none. -/
theorem keys_modify (table : Table κ ν) (key : κ) (change : ν → ν) :
    (table.modify key change).keys = table.keys := by
  simp only [keys, modify]
  induction table.entries with
  | nil => rfl
  | cons entry rest ih => by_cases h : entry.1 = key <;> simp [modifyIn, h, ih]

/-- The `keys` of a table are those that have a value. -/
theorem mem_keys_iff (table : Table κ ν) (key : κ) :
    key ∈ table.keys ↔ table.contains key = true := by
  simp only [keys, contains, find?]
  induction table.entries with
  | nil => simp [findIn?]
  | cons entry rest ih => grind [findIn?]

end Table

end ExtensionMembers
