import ScopeIndex.Ignore.File
import ScopeIndex.Settings.Basic
import ScopeIndex.Text.LowerCase
import ScopeIndex.Workspace.Basic

/-!
# Collecting source files

Which files below a directory a scan indexes: those with the extension of a source, outside ignored
directories, and not ignored by the rules of the ignore files in the directory and below it.

## Main definitions

* `Workspace.ignoreSpec` — the rules of all ignore files below a place.
* `Workspace.collect` — the source files below a place, in order.

## References

The functions `collect_files` and `_load_gitignore` of jsindex.
-/

namespace ScopeIndex

/-- The name of an ignore file. -/
def ignoreFileName : String := ".gitignore"

/-- The extensions of sources as they are compared: in lower case, with a dot in front. -/
def Settings.suffixes (s : Settings) : List String :=
  s.extensions.map fun e =>
    if e.toList.head? = some '.' then LowerCase.ofText e else "." ++ LowerCase.ofText e

/-- Does a place, seen from the root of a scan, have the extension of a source? -/
def Settings.isSource (s : Settings) (place : Location) : Bool :=
  s.suffixes.contains (LowerCase.ofText (SlashPath.suffix (place.getLast?.getD "")))

/-- Is a place, seen from the root of a scan, in an ignored directory or called like one? -/
def Settings.shuns (s : Settings) (place : Location) : Bool := place.any s.ignoredDirs.contains

namespace Workspace

/-- A file with its bytes, if it is an ignore file.  One that the system does not hand over is passed
over. -/
def ignoreFile? (f : Location × Content) : Option (Location × List UInt8) :=
  if f.1.getLast? = some ignoreFileName then
    match f.2.bytes with
    | .ok bytes => some (f.1, bytes)
    | .error _ => none
  else none

/-- The ignore files below a place, in order, with their bytes. -/
def ignoreFiles (w : Workspace) (root : Location) : List (Location × List UInt8) :=
  (w.filesBelow root).filterMap ignoreFile?

/-- The rules of all ignore files below a place, in the order of the files. -/
def ignoreSpec (w : Workspace) (root : Location) : Except IgnoreError IgnoreSpec :=
  ((w.ignoreFiles root).mapM fun f =>
    IgnoreFile.read f.2 (some (IgnoreFile.base root (root ++ f.1.dropLast)))).map List.flatten

/-- Is a file collected? -/
def isCollected (s : Settings) (spec : IgnoreSpec) (place : Location) : Bool :=
  s.isSource place && !s.shuns place && !spec.ignores (SlashPath.ofSteps place)

/-- The source files below a place, in order, each seen from there.  Whether a file can be read is of no
account here. -/
def collect (w : Workspace) (root : Location) (s : Settings) :
    Except IgnoreError (List (Location × Content)) :=
  (if s.respectIgnore then w.ignoreSpec root else .ok []).map fun spec =>
    (w.filesBelow root).filter fun f => isCollected s spec f.1

/-- The source files below the place that a path leads to; none if it leads nowhere. -/
def collectAt (w : Workspace) (path : String) (s : Settings) :
    Except IgnoreError (List (Location × Content)) :=
  match w.find? (SlashPath.normal path) with
  | some root => w.collect root s
  | none => .ok []

end Workspace
end ScopeIndex
