import ScopeIndex.Settings.Toml.Moment
import ScopeIndex.Settings.Toml.Number
import ScopeIndex.Settings.Toml.Tables

/-!
# Settings files with tables

A settings file holds keys with values, one per line, in tables that a line with a bracketed name begins;
two brackets begin the next table of an array.  Values are texts, numbers, truth values, dates and times,
arrays, which may go over several lines, and tables in braces.

## Main definitions

* `Toml.readValue` — a value at the front of the text.
* `Toml.read` — a whole file.

## References

The class `TomlConfigSettingsSource`, by which `load_settings` of jsindex reads a settings file: a file as a
whole.
-/

namespace ScopeIndex
namespace Toml

/-! ### Values -/

/-- The truth values by their words. -/
def truthWords : List (String × Bool) := [("true", true), ("false", false)]

/-- A value that is no array and no table. -/
def readScalar (cs : List Char) : Except ReadFlaw (Json × List Char) :=
  match readText cs with
  | some found => found.map fun (s, r) => (.text (String.ofList s), r)
  | none =>
      match truthWords.findSome? fun (word, b) => (Json.stripWord? word.toList cs).map fun r => (b, r) with
      | some (b, r) => .ok (.bool b, r)
      | none => (readMoment? cs).getD (readNumber cs)

/-- Put a value into a table in braces.  Nothing may reach into a value that stands together, and arrays
lead nowhere. -/
def bindInline? (sealed : List Key) (key : Key) (v : Json) (ms : Members Json) : Option (Members Json) := do
  let k ← key.getLast?
  if sealed.any fun s => s.isPrefixOf key then none else within? (putNew? k v) key.dropLast ms

mutual

/-- A value at the front of the text, below some levels of others.  The last number bounds the nesting and
the number of items. -/
def readValue (level : Nat) : Nat → List Char → Except ReadFlaw (Json × List Char)
  | 0, _ => .error .malformed
  | fuel + 1, cs =>
      match cs with
      | '[' :: r => do
          limits.checkDepth level
          let (vs, r) ← readItems (level + arrayLevels) fuel r
          return (.list vs, r)
      | '\x7b' :: r => do
          limits.checkDepth level
          match skipBlank r with
          | '\x7d' :: r => return (.object [], r)
          | r =>
              let (ms, r) ← readMembers (level + tableLevels) fuel r [] []
              return (.object ms, r)
      | r => readScalar r

/-- The items of an array up to its closing bracket, which may follow a comma. -/
def readItems (level : Nat) : Nat → List Char → Except ReadFlaw (List Json × List Char)
  | 0, _ => .error .malformed
  | fuel + 1, cs => do
      match ← skipLines cs with
      | ']' :: r => return ([], r)
      | r =>
          let (v, r) ← readValue level fuel r
          match ← skipLines r with
          | ',' :: r =>
              let (vs, r) ← readItems level fuel r
              return (v :: vs, r)
          | ']' :: r => return ([v], r)
          | _ => .error .malformed

/-- The members of a table in braces up to its closing brace, put to those before them. -/
def readMembers (level : Nat) :
    Nat → List Char → List Key → Members Json → Except ReadFlaw (Members Json × List Char)
  | 0, _, _, _ => .error .malformed
  | fuel + 1, cs, sealed, ms => do
      let (key, r) ← readKey cs
      match r with
      | '=' :: r =>
          let (v, r) ← readValue level fuel (skipBlank r)
          let ms ← ReadFlaw.orMalformed (bindInline? sealed key v ms)
          match skipBlank r with
          | ',' :: r => readMembers level fuel (skipBlank r) (if isWhole v then key :: sealed else sealed) ms
          | '\x7d' :: r => return (ms, r)
          | _ => .error .malformed
      | _ => .error .malformed

end

/-! ### Lines -/

/-- The text behind a line that holds nothing more. -/
def endLine (cs : List Char) : Except ReadFlaw (List Char) := do
  match ← skipComment (skipBlank cs) with
  | [] => return []
  | '\n' :: r => return r
  | _ => .error .malformed

/-- A line that begins a table, its opening bracket taken. -/
def readTable (d : Draft) (cs : List Char) : Except ReadFlaw (Draft × List Char) := do
  let (key, r) ← readKey (skipBlank cs)
  let d ← ReadFlaw.orMalformed (d.beginTable? key)
  match r with
  | ']' :: r => return (d, ← endLine r)
  | _ => .error .malformed

/-- A line that begins the next table of an array, its opening brackets taken. -/
def readItem (d : Draft) (cs : List Char) : Except ReadFlaw (Draft × List Char) := do
  let (key, r) ← readKey (skipBlank cs)
  let d ← ReadFlaw.orMalformed (d.beginItem? key)
  match r with
  | ']' :: ']' :: r => return (d, ← endLine r)
  | _ => .error .malformed

/-- A line with a key and a value. -/
def readBinding (d : Draft) (cs : List Char) : Except ReadFlaw (Draft × List Char) := do
  let (key, r) ← readKey cs
  match r with
  | '=' :: r =>
      let (v, r) ← readValue 0 (2 * cs.length + 2) (skipBlank r)
      let d ← ReadFlaw.orMalformed (d.bind? key v)
      return (d, ← endLine r)
  | _ => .error .malformed

/-- The rest of a file; each line takes at least one character. -/
def readStatements : Nat → Draft → List Char → Except ReadFlaw (Members Json)
  | 0, _, _ => .error .malformed
  | fuel + 1, d, cs => do
      match ← skipLines cs with
      | [] => return d.root
      | '[' :: '[' :: r =>
          let (d, r) ← readItem d r
          readStatements fuel d r
      | '[' :: r =>
          let (d, r) ← readTable d r
          readStatements fuel d r
      | r =>
          let (d, r) ← readBinding d r
          readStatements fuel d r

/-- A whole file. -/
def read (s : String) : Except ReadFlaw (Members Json) :=
  let cs := Lines.joinReturns s.toList
  readStatements (cs.length + 1) {} cs

end Toml
end ScopeIndex
