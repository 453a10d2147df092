/-!
# `Splice.Table` — tables that keep their order

A table is a list of keys and values in the order in which the keys were first inserted; no key
stands in it twice.

## Contents
- `Table`, `Table.insert`, `Table.ofList`, `Table.keys`: building and listing; look-up is
  `List.lookup`.
- `lookup_insert_self`, `lookup_insert_ne`, `keys_insert`: what an insertion changes.
- `Table.insertSorted`: insertion into a table ordered by key.
-/

namespace Splice

/-- Keys and values in order of insertion. -/
abbrev Table (α : Type) := List (String × α)

namespace Table

variable {α : Type}

/-- Binds `key` to `value`: in its place if it is bound already, else at the end. -/
def insert (key : String) (value : α) : Table α → Table α
  | [] => [(key, value)]
  | (k, v) :: rest => if k = key then (k, value) :: rest else (k, v) :: insert key value rest

/-- The table of the given bindings, inserted in order. -/
def ofList (entries : List (String × α)) : Table α :=
  entries.foldl (fun table (key, value) => insert key value table) []

/-- The keys in order. -/
def keys (table : Table α) : List String := table.map Prod.fst

/-- Binds `key` in a table ordered by key; a key that is bound already is bound anew. -/
def insertSorted (key : String) (value : α) : Table α → Table α
  | [] => [(key, value)]
  | (k, v) :: rest =>
    if key = k then (key, value) :: rest
    else if key < k then (key, value) :: (k, v) :: rest
    else (k, v) :: insertSorted key value rest

/-- The table of the given bindings, ordered by key. -/
def sortedOfList (entries : List (String × α)) : Table α :=
  entries.foldl (fun table (key, value) => insertSorted key value table) []

variable {key other : String} {value : α} {table : Table α}

/-- An inserted key is bound to what was inserted. -/
@[simp] theorem lookup_insert_self : (insert key value table).lookup key = some value := by
  induction table with
  | nil => simp [insert]
  | cons entry rest ih =>
    obtain ⟨k, v⟩ := entry
    unfold insert
    split
    · next h => simp [h]
    · next h =>
      have hne : (key == k) = false := by simpa using fun hk : key = k => h hk.symm
      simpa [List.lookup_cons, hne] using ih

/-- Every other key keeps its binding, or stays unbound. -/
theorem lookup_insert_ne (h : other ≠ key) :
    (insert key value table).lookup other = table.lookup other := by
  have hne : (other == key) = false := by simpa using h
  induction table with
  | nil => simp [insert, List.lookup_cons, hne]
  | cons entry rest ih =>
    obtain ⟨k, v⟩ := entry
    unfold insert
    split
    · next hk => simp [hk, List.lookup_cons, hne]
    · simp [List.lookup_cons, ih]

/-- An insertion adds a new key at the end and leaves the others where they are. -/
theorem keys_insert :
    (insert key value table).keys =
      if key ∈ table.keys then table.keys else table.keys ++ [key] := by
  induction table with
  | nil => simp [insert, keys]
  | cons entry rest ih =>
    obtain ⟨k, v⟩ := entry
    unfold insert
    split
    · next h => simp [keys, h]
    · next h =>
      have hne : key ≠ k := fun hk => h hk.symm
      simp only [keys, List.map_cons, List.mem_cons, hne, false_or] at ih ⊢
      rw [ih]
      split <;> simp [*]

end Table

end Splice
