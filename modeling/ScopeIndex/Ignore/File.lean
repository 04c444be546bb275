import ScopeIndex.Ignore.Pattern
import ScopeIndex.Text.Utf8

/-!
# Ignore files

An ignore file lists patterns, one a line.  Its patterns are about paths below its own directory, so a
file in a directory below the root of a scan is rebased: the way from the root to the directory is put
in front of each pattern, and a pattern without an inner slash may match at any depth below it.  Of all
rules that match a path the last one decides.

## Main definitions

* `IgnoreSpec`, `IgnoreSpec.verdict?`, `IgnoreSpec.ignores` — rules in order, and what they decide.
* `IgnoreFile.lines` — the patterns of a file.
* `IgnoreFile.rebase` — a pattern as seen from the root.
* `IgnoreFile.read` — the rules of a file.

## References

The function `parse_gitignore` of jsindex, and the class `PathSpec` of pathspec.
-/

namespace ScopeIndex

/-- Rules in the order in which they were given. -/
abbrev IgnoreSpec := List IgnoreRule

namespace IgnoreSpec

/-- A path as rules see it: without a slash, or else a dot and a slash, in front. -/
def normalPath : List Char → List Char
  | '/' :: cs => cs
  | '.' :: '/' :: cs => cs
  | cs => cs

/-- What the last rule that matches decides about a path. -/
def verdict? (spec : IgnoreSpec) (path : List Char) : Option Bool :=
  (spec.filterMap (·.verdict? (normalPath path))).getLast?

/-- Is a path ignored? -/
def ignores (spec : IgnoreSpec) (path : String) : Bool := verdict? spec path.toList = some true

/-- Rules that come later win over earlier ones. -/
theorem verdict?_append (spec later : IgnoreSpec) (path : List Char) :
    verdict? (spec ++ later) path = (verdict? later path).or (verdict? spec path) := by
  simp [verdict?, List.filterMap_append, List.getLast?_append]

end IgnoreSpec

/-- Why an ignore file cannot be read. -/
inductive IgnoreError where
  /-- The file is not UTF-8. -/
  | undecodable
  /-- A line is no pattern. -/
  | malformed (flaw : PatternFlaw)
  deriving DecidableEq, Repr

namespace IgnoreFile

/-- Does a line count?  Empty lines and comments, which may be indented, do not. -/
def counts (line : List Char) : Bool :=
  !line.isEmpty && (Lines.trimStart line).head? ≠ some '#'

/-- The patterns of a file, without the blanks at their ends. -/
def lines (text : List Char) : List (List Char) :=
  ((Lines.split text).map Lines.trimEnd).filter counts

/-- Is there a slash before the slashes at the end of a pattern? -/
def hasInnerSlash (pattern : List Char) : Bool :=
  (pattern.reverse.dropWhile (· = '/')).contains '/'

/-- A pattern as seen from the root, `base` being the way from there to the directory of its file. -/
def rebase (base pattern : List Char) : List Char :=
  if pattern.head? = some '/' then base ++ pattern.dropWhile (· = '/')
  else if hasInnerSlash pattern then base ++ pattern
  else base ++ Pattern.anyDepth ++ '/' :: pattern

/-- A line as seen from the root; the mark that restores stays in front. -/
def rebaseLine (base : List Char) : List Char → List Char
  | '!' :: pattern => '!' :: rebase base pattern
  | pattern => rebase base pattern

/-- The rules of lines.  Lines that are empty are dropped. -/
def rules (lines : List (List Char)) : Except PatternFlaw IgnoreSpec :=
  (lines.filter (!·.isEmpty)).mapM Pattern.rule

/-- The way from a root to a directory below it, with a slash behind it; empty for the root itself.
Places are given by the names on the way from the top.  A directory outside the root is given by its way
from the top, which no path below the root has. -/
def base (root directory : List String) : List Char :=
  let steps : List String :=
    if root <+: directory then directory.drop root.length else "/" :: directory
  if steps = [] then [] else (Separated.ofPieces '/' steps).toList ++ ['/']

/-- The rules of a file, rebased if a base is given. -/
def read (bytes : List UInt8) (base : Option (List Char)) : Except IgnoreError IgnoreSpec :=
  match Utf8.decode? bytes with
  | none => .error .undecodable
  | some text =>
      let patterns :=
        match base with
        | none => lines text
        | some base => (lines text).map (rebaseLine base)
      match rules patterns with
      | .ok spec => .ok spec
      | .error flaw => .error (.malformed flaw)

end IgnoreFile
end ScopeIndex
