/-!
# Settings

What a user can choose: where scopes begin, whether syntax errors are tolerated, how a nameless fragment
is written, and how directories are scanned.

## Main definitions

* `Settings` — all choices, with the defaults.
* `Leaf`, `Group` — the names of the single choices and of the groups they are given in.

## References

The models `ScopeSettings`, `ParserSettings`, `PathSettings`, `ScannerSettings` and `IndexSettings` of
jsindex.
-/

namespace ScopeIndex

/-- All choices. -/
structure Settings where
  /-- The node types that open a scope, sorted and without repeats. -/
  nodeTypes : List String :=
    ["arrow_function", "catch_clause", "function", "function_declaration", "function_expression",
      "generator_function", "generator_function_declaration", "method_definition", "program"]
  /-- Are sources with syntax errors indexed? -/
  tolerant : Bool := false
  /-- What stands for a fragment without a name. -/
  marker : String := "?"
  /-- The extensions of source files. -/
  extensions : List String := [".js", ".mjs", ".cjs", ".jsx"]
  /-- The names of directories that are never scanned, sorted and without repeats. -/
  ignoredDirs : List String :=
    [".git", ".hg", ".idea", ".svn", ".vscode", "bower_components", "node_modules"]
  /-- Do ignore files count? -/
  respectIgnore : Bool := true
  /-- The number of workers of a scan, if it is chosen. -/
  workers : Option Int := none
  /-- The number of files between two reports of progress. -/
  progressEvery : Int := 100
  deriving DecidableEq, Repr

/-- A group of choices that are given together. -/
inductive Group where
  /-- Where scopes begin. -/
  | scopes
  /-- How sources are parsed. -/
  | parser
  /-- How paths are written. -/
  | paths
  /-- How directories are scanned. -/
  | scanner
  deriving DecidableEq, Repr

namespace Group

/-- All groups, in the order in which they are checked. -/
def all : List Group := [scopes, parser, paths, scanner]

/-- The word for a group. -/
def name : Group → String
  | scopes => "scopes"
  | parser => "parser"
  | paths => "paths"
  | scanner => "scanner"

end Group

/-- A single choice. -/
inductive Leaf where
  /-- The node types that open a scope. -/
  | nodeTypes
  /-- Whether sources with syntax errors are indexed. -/
  | tolerant
  /-- What stands for a fragment without a name. -/
  | marker
  /-- The extensions of source files. -/
  | extensions
  /-- The directories that are never scanned. -/
  | ignoredDirs
  /-- Whether ignore files count. -/
  | respectIgnore
  /-- The number of workers of a scan. -/
  | workers
  /-- The number of files between two reports of progress. -/
  | progressEvery
  deriving DecidableEq, Repr

namespace Leaf

/-- All choices, in the order in which they are checked. -/
def all : List Leaf :=
  [nodeTypes, tolerant, marker, extensions, ignoredDirs, respectIgnore, workers, progressEvery]

/-- The group a choice is given in. -/
def group : Leaf → Group
  | nodeTypes => .scopes
  | tolerant => .parser
  | marker => .paths
  | extensions | ignoredDirs | respectIgnore | workers | progressEvery => .scanner

/-- The word for a choice. -/
def name : Leaf → String
  | nodeTypes => "node_types"
  | tolerant => "tolerant"
  | marker => "unresolved_marker"
  | extensions => "extensions"
  | ignoredDirs => "ignored_dirs"
  | respectIgnore => "respect_gitignore"
  | workers => "num_workers"
  | progressEvery => "progress_every"

/-- Is the choice a collection, which a variable has to spell out as JSON? -/
def isCollection : Leaf → Bool
  | nodeTypes | extensions | ignoredDirs => true
  | _ => false

/-- The choice of a group that a word stands for. -/
def ofName? (g : Group) (s : String) : Option Leaf := all.find? fun l => l.group = g && l.name = s

end Leaf
end ScopeIndex
