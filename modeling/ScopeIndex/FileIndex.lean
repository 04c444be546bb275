import ScopeIndex.Json.Writer
import ScopeIndex.Occurrence
import ScopeIndex.ScopeStack
import ScopeIndex.SymbolPath

/-!
# The index of a file

The finished index of a source: its scopes in the order of opening, each with the occurrences of its
symbols, and the forms in which it is printed.

## Main definitions

* `IndexedScope`, `FileIndex` — a finished scope and a finished index.
* `IndexedScope.lookup` — the occurrences of a path.
* `FileIndex.toJson`, `FileIndex.listing` — the index as JSON and as an indented listing.

## References

The classes `IndexedScope` and `FileIndex` of jsindex, and its function `format_text`.
-/

namespace ScopeIndex

/-- A finished scope. -/
structure IndexedScope where
  /-- The type of the node that opened the scope. -/
  type : String
  /-- The bytes of that node. -/
  span : Span
  /-- How many scopes lie around this one. -/
  depth : Int
  /-- The occurrences by key, in order of first occurrence. -/
  symbols : List (String × List Occurrence)
  deriving DecidableEq, Repr

/-- The index of a file. -/
structure FileIndex where
  /-- The name of the file in diagnostics. -/
  path : String
  /-- The digest of the source, if known. -/
  digest : Option String
  /-- The scopes, in the order of opening. -/
  scopes : List IndexedScope
  deriving DecidableEq, Repr

/-- The finished form of a scope. -/
def Scope.freeze (s : Scope) : IndexedScope :=
  { type := s.type, span := s.span, depth := s.depth, symbols := s.table.entries }

/-- An occurrence as JSON: its range, and `true` if it declares. -/
def Occurrence.toJson (o : Occurrence) : Json :=
  .list ([.int o.span.start, .int o.span.stop] ++ if o.declaring then [.bool true] else [])

/-- An occurrence in a listing: its range, and a star if it declares. -/
def Occurrence.listing (o : Occurrence) : String :=
  toString o.span.start ++ "-" ++ toString o.span.stop ++ if o.declaring then "*" else ""

namespace IndexedScope

/-- The occurrences of a path. -/
def lookup (s : IndexedScope) (path : String) : Option (List Occurrence) :=
  s.symbols.lookup (SymbolPath.escape path)

/-- A scope as JSON: its symbols by key. -/
def toJson (s : IndexedScope) : Json :=
  .object (s.symbols.map fun (key, os) => (key, .list (os.map Occurrence.toJson)))

/-- The indentation of a scope in a listing: two blanks per level, none above the outermost. -/
def indent (s : IndexedScope) : String := String.ofList (List.replicate (2 * (s.depth + 1)).toNat ' ')

/-- The lines of a scope in a listing: the scope itself, and its symbols one level deeper. -/
def listing (s : IndexedScope) : List String :=
  (s.indent ++ "[" ++ s.type ++ " " ++ toString s.span.start ++ "-" ++ toString s.span.stop ++ "]") ::
    s.symbols.map fun (key, os) =>
      s.indent ++ "  " ++ SymbolPath.unescape key ++ ": "
        ++ ", ".intercalate (os.map Occurrence.listing)

end IndexedScope

namespace FileIndex

/-- The index as JSON. -/
def toJson (f : FileIndex) : Json :=
  .object
    [("path", .text f.path),
      ("file_hash", (f.digest.map Json.text).getD .null),
      ("scopes", .list (f.scopes.map IndexedScope.toJson))]

/-- The index as an indented listing. -/
def listing (f : FileIndex) : String :=
  "\n".intercalate (f.path :: f.scopes.flatMap IndexedScope.listing)

/-- The number of symbols in all scopes. -/
def symbolCount (scopes : List IndexedScope) : Nat := (scopes.flatMap (·.symbols)).length

end FileIndex
end ScopeIndex
