import ScopeIndex.Ignore.Glob
import ScopeIndex.Text.Lines
import ScopeIndex.Text.Separated

/-!
# Patterns of an ignore file

One line of an ignore file becomes a rule: it ignores the paths that match, or restores them after a
leading `!`, or has no effect.  A pattern is cut at slashes.  A pattern with a slash in front or inside
is matched from the top, any other at every depth; `**` as a segment stands for any number of directories,
and a slash at the end asks for something below the path.

## Main definitions

* `PathTest` — which paths a pattern matches.
* `IgnoreRule` — the effect of a line.
* `Pattern.segments` — the segments of a pattern in normal form.
* `Pattern.rule` — the rule of a line.

## References

The syntax `gitwildmatch` of pathspec, which `parse_gitignore` of jsindex asks for.
-/

namespace ScopeIndex

/-- Which paths a pattern matches. -/
inductive PathTest where
  /-- Every path but those of line feeds alone. -/
  | everything
  /-- Every path with a slash. -/
  | nested
  /-- The paths whose start matches these pieces. -/
  | pieces (ps : List Piece)
  deriving DecidableEq, Repr

/-- Does a path pass the test? -/
def PathTest.passes : PathTest → List Char → Bool
  | everything, path => path.any (· ≠ '\n')
  | nested, path => path.contains '/'
  | pieces ps, path => Piece.matchesStart ps path

/-- The effect of one line of an ignore file. -/
inductive IgnoreRule where
  /-- The line has no effect. -/
  | void
  /-- Paths that pass the test are ignored, or restored. -/
  | active (restores : Bool) (test : PathTest)
  deriving DecidableEq, Repr

namespace IgnoreRule

/-- Does the rule ignore the paths it matches?  A line without effect does neither. -/
def ignoring? : IgnoreRule → Option Bool
  | void => none
  | active restores _ => some !restores

/-- What a rule decides about a path: `true` if it ignores it, `false` if it restores it. -/
def verdict? : IgnoreRule → List Char → Option Bool
  | void, _ => none
  | active restores test, path => if test.passes path then some !restores else none

end IgnoreRule

/-- Why a line cannot be read as a pattern. -/
inductive PatternFlaw where
  /-- Nothing is left behind the mark that restores. -/
  | noSegment
  /-- A segment ends in a backslash that escapes nothing. -/
  | danglingEscape
  /-- An interval of a bracket expression ends before it begins. -/
  | reversedRange
  deriving DecidableEq, Repr

namespace Pattern

/-- The segment that stands for any number of directories. -/
def anyDepth : List Char := ['*', '*']

/-- The segment that stands for any name. -/
def anyName : List Char := ['*']

/-- A pattern without the blanks at its end, unless the last one is escaped. -/
def trimmed (pattern : List Char) : List Char :=
  if [' ', '\\'] <+: pattern.reverse then pattern else Lines.trimEnd pattern

/-- Fix where matching begins: an empty first segment pins the pattern to the top and is dropped, and a
single name, with or without a slash behind it, is looked for at every depth. -/
def anchored : List (List Char) → List (List Char)
  | [] :: segments => segments
  | [s] => if s = anyDepth then [s] else [anyDepth, s]
  | [s, []] => if s = anyDepth then [s, []] else [anyDepth, s, []]
  | segments => segments

/-- Replace an empty last segment: what is below a directory may have any depth. -/
def opened : List (List Char) → List (List Char)
  | [] => []
  | [s] => if s = [] then [anyDepth] else [s]
  | s :: segments => s :: opened segments

/-- Reduce neighbours that stand for any number of directories to one. -/
def merged : List (List Char) → List (List Char)
  | [] => []
  | [s] => [s]
  | s :: t :: segments =>
      if s = anyDepth ∧ t = anyDepth then merged (t :: segments) else s :: merged (t :: segments)

/-- The segments of a pattern in normal form. -/
def segments (pattern : List Char) : List (List Char) :=
  merged (opened (anchored (Separated.split '/' pattern)))

/-- Does a pattern end with a slash? -/
def isDirectory (pattern : List Char) : Bool := (Separated.split '/' pattern).getLast? = some []

/-- The pieces of one name. -/
def namePieces (s : List Char) : Except GlobFlaw (List Piece) :=
  if s = anyName then .ok [.fill] else Glob.pieces s

/-- The pieces of the segments of a pattern; `first` tells whether these are all segments, `slash` whether
a name needs a slash in front. -/
def piecesFrom : (first slash : Bool) → List (List Char) → Except GlobFlaw (List Piece)
  | _, _, [] => .ok []
  | _, slash, [s] =>
      if s = anyDepth then .ok [.char '/']
      else (namePieces s).map fun ps => (if slash then [.char '/'] else []) ++ ps ++ [.close]
  | first, slash, s :: t :: rest =>
      if s = anyDepth then
        if first then (piecesFrom false false (t :: rest)).map (Piece.above :: ·)
        else (piecesFrom false true (t :: rest)).map (Piece.between :: ·)
      else
        match namePieces s with
        | .error flaw => .error flaw
        | .ok ps =>
            (piecesFrom false true (t :: rest)).map fun qs =>
              (if slash then [.char '/'] else []) ++ ps ++ qs

/-- The test of a pattern in segments; `directory` tells whether a slash ended it. -/
def test (directory : Bool) (segments : List (List Char)) : Except GlobFlaw PathTest :=
  if segments = [anyDepth] then .ok (if directory then .nested else .everything)
  else if segments = [anyDepth, anyName] then .ok .everything
  else if segments = [anyDepth, anyName, anyDepth] then .ok .nested
  else (piecesFrom true false segments).map .pieces

/-- Are all sets of a test well-formed? -/
def isSound : PathTest → Bool
  | .pieces ps => ps.all Piece.isSound
  | _ => true

/-- The rule of a pattern without its mark.  A bracket that is not closed leaves the line without
effect. -/
def ruleOf (restores : Bool) (pattern : List Char) : Except PatternFlaw IgnoreRule :=
  let segments := segments pattern
  if segments = [] then .error .noSegment
  else
    match test (isDirectory pattern) segments with
    | .error .danglingEscape => .error .danglingEscape
    | .error .unclosed => .ok .void
    | .ok test => if isSound test then .ok (.active restores test) else .error .reversedRange

/-- The rule of a line.  Comments, empty lines and a lone slash have no effect. -/
def rule (line : List Char) : Except PatternFlaw IgnoreRule :=
  let pattern := trimmed line
  if pattern = [] ∨ pattern.head? = some '#' ∨ pattern = ['/'] then .ok .void
  else
    match pattern with
    | '!' :: rest => ruleOf true rest
    | _ => ruleOf false pattern

end Pattern
end ScopeIndex
