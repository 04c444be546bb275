import ScopeIndex.Occurrence
import ScopeIndex.SymbolPath

/-!
# Symbol tables

A symbol table maps paths to the occurrences of their names, both in the order in which they were added.
Paths are stored under their keys.  The first occurrence of a path declares it.

## Main definitions

* `SymbolTable.get?`, `SymbolTable.contains`, `SymbolTable.paths` — what a table holds.
* `SymbolTable.add` — one more occurrence of a path.

## Main results

* `SymbolTable.get?_add_self`, `SymbolTable.get?_add_of_ne` — what an addition does to each list.
* `SymbolTable.keys_add` — a known key keeps its place and a new one goes to the end.

## References

The class `SymbolTable` of jsindex.
-/

namespace ScopeIndex

/-- Occurrences by key, both in the order of addition. -/
structure SymbolTable where
  /-- The keys with their occurrences. -/
  entries : List (String × List Occurrence) := []
  deriving DecidableEq, Repr

namespace SymbolTable

/-- The table without entries. -/
def empty : SymbolTable := {}

/-- The keys, in order of first addition. -/
def keys (t : SymbolTable) : List String := t.entries.map (·.1)

/-- The number of keys. -/
def size (t : SymbolTable) : Nat := t.entries.length

/-- The occurrences stored under a key. -/
def atKey? (t : SymbolTable) (key : String) : Option (List Occurrence) := t.entries.lookup key

/-- The occurrences of a path. -/
def get? (t : SymbolTable) (path : String) : Option (List Occurrence) :=
  t.atKey? (SymbolPath.escape path)

/-- Does the table hold a path? -/
def contains (t : SymbolTable) (path : String) : Bool := (t.get? path).isSome

/-- The paths, in order of first addition. -/
def paths (t : SymbolTable) : List String := t.keys.map SymbolPath.unescape

/-- One more occurrence under a key: behind the known ones, or as the first, which declares. -/
def insert (key : String) (span : Span) :
    List (String × List Occurrence) → List (String × List Occurrence)
  | [] => [(key, [⟨span, true⟩])]
  | (k, os) :: rest =>
      if key = k then (k, os ++ [⟨span, false⟩]) :: rest else (k, os) :: insert key span rest

/-- One more occurrence of a path. -/
def add (t : SymbolTable) (path : String) (span : Span) : SymbolTable :=
  ⟨insert (SymbolPath.escape path) span t.entries⟩

/-- The occurrence that an addition makes: it declares iff the path is new. -/
def occurrence (t : SymbolTable) (path : String) (span : Span) : Occurrence :=
  ⟨span, !t.contains path⟩

theorem lookup_insert_self (key : String) (span : Span) (es : List (String × List Occurrence)) :
    (insert key span es).lookup key =
      some (((es.lookup key).map (· ++ [⟨span, false⟩])).getD [⟨span, true⟩]) := by
  induction es with
  | nil => simp [insert]
  | cons e es ih =>
      obtain ⟨k, os⟩ := e
      by_cases h : key = k
      · simp [insert, h]
      · simpa [insert, h, List.lookup_cons, beq_false_of_ne h] using ih

theorem lookup_insert_of_ne {key other : String} (h : other ≠ key) (span : Span)
    (es : List (String × List Occurrence)) :
    (insert key span es).lookup other = es.lookup other := by
  induction es with
  | nil => simp [insert, List.lookup_cons, beq_false_of_ne h]
  | cons e es ih =>
      obtain ⟨k, os⟩ := e
      by_cases hk : key = k
      · subst hk
        simp [insert, List.lookup_cons, beq_false_of_ne h]
      · simp [insert, hk, List.lookup_cons, ih]

/-- An addition puts its occurrence behind the known ones of the path, or makes it the first. -/
theorem get?_add_self (t : SymbolTable) (path : String) (span : Span) :
    (t.add path span).get? path =
      some (((t.get? path).map (· ++ [⟨span, false⟩])).getD [⟨span, true⟩]) :=
  lookup_insert_self _ _ _

/-- An addition leaves paths with another key alone. -/
theorem get?_add_of_ne (t : SymbolTable) {path other : String}
    (h : SymbolPath.escape other ≠ SymbolPath.escape path) (span : Span) :
    (t.add path span).get? other = t.get? other :=
  lookup_insert_of_ne h _ _

/-- A known key keeps its place and a new one goes to the end. -/
theorem keys_add (t : SymbolTable) (path : String) (span : Span) :
    (t.add path span).keys =
      if SymbolPath.escape path ∈ t.keys then t.keys else t.keys ++ [SymbolPath.escape path] := by
  obtain ⟨es⟩ := t
  simp only [keys, add]
  generalize SymbolPath.escape path = key
  induction es with
  | nil => simp [insert]
  | cons e es ih =>
      obtain ⟨k, os⟩ := e
      by_cases h : key = k
      · simp [insert, h]
      · by_cases hm : key ∈ es.map (·.1) <;> simp [insert, h, ih, hm]

end SymbolTable
end ScopeIndex
