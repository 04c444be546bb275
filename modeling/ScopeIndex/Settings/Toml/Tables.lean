import ScopeIndex.Settings.Toml.Text

/-!
# Tables

A file with tables builds a tree of them.  A key may have several parts, which lead through tables; in an
array of tables they lead through its last one.  A value is never replaced.  A line may begin a table only
once, and neither a line nor a key may reach into a table or an array that was written as one value.

## Main definitions

* `Toml.readKey` — a key with its parts.
* `Toml.within?` — change the table that the parts of a key lead to.
* `Toml.Draft` — what has been read of a file, with `beginTable?`, `beginItem?` and `bind?`.

## References

The class `TomlConfigSettingsSource`, by which `load_settings` of jsindex reads a settings file: its tables.
-/

namespace ScopeIndex
namespace Toml

/-! ### Keys -/

/-- The parts of a key. -/
abbrev Key := List String

/-- May a character stand in a bare key? -/
def isBare (c : Char) : Bool := c.isAlphanum || c = '_' || c = '-'

/-- One part of a key. -/
def readPart (cs : List Char) : Except ReadFlaw (String × List Char) :=
  match readLineText cs with
  | some found => found.map fun (s, r) => (String.ofList s, r)
  | none =>
      let part := cs.takeWhile isBare
      if part.isEmpty then .error .malformed else .ok (String.ofList part, cs.dropWhile isBare)

/-- The parts of a key, of which each takes at least one character. -/
def readParts : Nat → List Char → Except ReadFlaw (Key × List Char)
  | 0, _ => .error .malformed
  | fuel + 1, cs => do
      let (part, r) ← readPart cs
      match skipBlank r with
      | '.' :: r =>
          let (parts, r) ← readParts fuel (skipBlank r)
          return (part :: parts, r)
      | r => return ([part], r)

/-- A key, and what follows it and the blanks behind it. -/
def readKey (cs : List Char) : Except ReadFlaw (Key × List Char) := readParts (cs.length + 1) cs

/-! ### The tree -/

/-- Change the table that a value is, or the last table of an array. -/
def inTable? (change : Members Json → Option (Members Json)) : Json → Option Json
  | .object ms => (change ms).map .object
  | .list vs =>
      match vs.getLast? with
      | some (.object ms) => (change ms).map fun ms => .list (vs.dropLast ++ [.object ms])
      | _ => none
  | _ => none

/-- Change the table that the parts of a key lead to.  Tables on the way are made; a value that is no
table stands in the way. -/
def within? (change : Members Json → Option (Members Json)) : Key → Members Json → Option (Members Json)
  | [], ms => change ms
  | k :: ks, ms =>
      (inTable? (within? change ks) ((Members.get? ms k).getD (.object []))).map fun v =>
        Members.put k v ms

/-- Set a value under the last part of a key, unless there is one. -/
def putNew? (k : String) (v : Json) (ms : Members Json) : Option (Members Json) :=
  if (Members.get? ms k).isSome then none else some (Members.put k v ms)

/-- Add an empty table to the array under a name. -/
def pushTable? (k : String) (ms : Members Json) : Option (Members Json) :=
  match Members.get? ms k with
  | none => some (Members.put k (.list [.object []]) ms)
  | some (.list vs) => some (Members.put k (.list (vs ++ [.object []])) ms)
  | some _ => none

/-- Do the parts of a value stand together, so that nothing may reach into it? -/
def isWhole : Json → Bool
  | .object _ | .list _ => true
  | _ => false

/-! ### Files -/

/-- What has been read of a file. -/
structure Draft where
  /-- The tree so far. -/
  root : Members Json := []
  /-- The table that keys go to. -/
  table : Key := []
  /-- The tables that no line may begin and no key may lead through. -/
  begun : List Key := []
  /-- The tables that keys led through since the last line that began one. -/
  crossed : List Key := []
  /-- The values that nothing may reach into. -/
  sealed : List Key := []

namespace Draft

/-- Does a key reach into a value that nothing may reach into? -/
def isSealed (d : Draft) (key : Key) : Bool := d.sealed.any fun k => k.isPrefixOf key

/-- Tables that keys led through are begun once a line begins another. -/
def settle (d : Draft) : Draft := { d with begun := d.crossed ++ d.begun, crossed := [] }

/-- A line begins a table. -/
def beginTable? (d : Draft) (key : Key) : Option Draft := do
  let d := d.settle
  if d.begun.contains key || d.isSealed key then none
  else
    let root ← within? some key d.root
    return { d with root, table := key, begun := key :: d.begun }

/-- A line begins the next table of an array.  Tables below the former one may be begun again. -/
def beginItem? (d : Draft) (key : Key) : Option Draft := do
  let d := d.settle
  let k ← key.getLast?
  if d.isSealed key then none
  else
    let root ← within? (pushTable? k) key.dropLast d.root
    return { d with
      root
      table := key
      begun := key :: d.begun.filter fun k => !key.isPrefixOf k
      sealed := d.sealed.filter fun k => !key.isPrefixOf k }

/-- The tables that a key of the table leads through. -/
def path (d : Draft) (key : Key) : List Key :=
  (List.range (key.length - 1)).map fun n => d.table ++ key.take (n + 1)

/-- A key of the table is given a value. -/
def bind? (d : Draft) (key : Key) (v : Json) : Option Draft := do
  let k ← key.getLast?
  let parent := d.table ++ key.dropLast
  if (d.path key).any d.begun.contains || d.isSealed parent then none
  else
    let root ← within? (putNew? k v) parent d.root
    return { d with
      root
      crossed := d.path key ++ d.crossed
      sealed := if isWhole v then (d.table ++ key) :: d.sealed else d.sealed }

end Draft
end Toml
end ScopeIndex
