import ScopeIndex.Text.Separated

/-!
# Slash paths

A path as it is written on a command line or in a report: steps between slashes.  A path that starts with
a slash starts at the top of the file system.

## Main definitions

* `SlashPath.normal` — a path without steps that lead nowhere.
* `SlashPath.walk` — one step on the way that a path leads.
* `SlashPath.ofPlace` — the path of a place from the top.
* `SlashPath.below` — a path continued by another.
* `SlashPath.suffix` — the extension of a name.
-/

namespace ScopeIndex
namespace SlashPath

/-- The steps of a path, as written. -/
def steps (path : String) : List String := Separated.pieces '/' path

/-- Does a path start at the top of the file system? -/
def isAbsolute (path : String) : Bool := path.toList.head? = some '/'

/-- The path with these steps; with none it is the place itself. -/
def ofSteps (steps : List String) : String :=
  if steps = [] then "." else Separated.ofPieces '/' steps

/-- The slashes in front of a path in normal form.  Two stay as they are, and more than two are one. -/
def anchor (path : String) : String :=
  match (path.toList.takeWhile (· = '/')).length with
  | 0 => ""
  | 2 => "//"
  | _ => "/"

/-- A path without steps that lead nowhere.  A step back stays, since what it leads to depends on the
files. -/
def normal (path : String) : String :=
  let names := (steps path).filter fun s => s ≠ "" ∧ s ≠ "."
  if isAbsolute path then anchor path ++ Separated.ofPieces '/' names else ofSteps names

/-- Take one more step.  A step back undoes the last one, and leads nowhere from the top. -/
def walk (place : List String) (step : String) : List String :=
  if step = "" ∨ step = "." then place
  else if step = ".." then place.dropLast
  else place ++ [step]

/-- The path of a place from the top. -/
def ofPlace (place : List String) : String := "/" ++ Separated.ofPieces '/' place

/-- What stands in front of a path that is reached from another. -/
def lead (base : String) : String :=
  if base = "." then "" else if base.toList.getLast? = some '/' then base else base ++ "/"

/-- A path in normal form continued by a path below it. -/
def below (base path : String) : String := lead base ++ path

/-- The extension of a name: what begins at its last dot.  A dot that comes first or last begins
none. -/
def suffix (name : String) : String :=
  let tail := name.toList.reverse.takeWhile (· ≠ '.')
  if tail = [] ∨ name.toList.length ≤ tail.length + 1 then "" else String.ofList ('.' :: tail.reverse)

end SlashPath
end ScopeIndex
