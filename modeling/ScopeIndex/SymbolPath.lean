import ScopeIndex.Text.Separated

/-!
# Symbol paths and their keys

A symbol path is a dotted text such as `o.a.b`; its fragments are the pieces between dots.  Symbol
tables store a path under its *key*.  The fragment `constructor` is reserved in keys and is stored with
a blank in front; a fragment that starts with a blank gets another one, so that no two paths share a
key.

## Main definitions

* `SymbolPath.escape` — the key of a path.
* `SymbolPath.unescape` — the path of a key.
* `SymbolPath.join` — a name nested in a context of names.

## References

The functions `escape_path`, `unescape_path` and `join_path` of jsindex.
-/

namespace ScopeIndex
namespace SymbolPath

/-- The fragment that a key never holds bare. -/
def reserved : List Char := "constructor".toList

/-- The key form of one fragment. -/
def escapeFragment (f : List Char) : List Char :=
  if f = reserved ∨ f.head? = some ' ' then ' ' :: f else f

/-- The fragment of a key form. -/
def unescapeFragment : List Char → List Char
  | ' ' :: f => f
  | f => f

/-- Does `w` stand somewhere in a text? -/
def occursIn (w : List Char) : List Char → Bool
  | [] => w.isEmpty
  | c :: cs => w.isPrefixOf (c :: cs) || occursIn w cs

/-- The key of a path, fragment by fragment. -/
def escapeFragments (cs : List Char) : List Char :=
  Separated.join '.' ((Separated.split '.' cs).map escapeFragment)

/-- The path of a key, fragment by fragment. -/
def unescapeFragments (cs : List Char) : List Char :=
  Separated.join '.' ((Separated.split '.' cs).map unescapeFragment)

/-- The key of a path.  A text that holds neither a blank nor the reserved word is its own key, and is
not cut. -/
def escape (path : String) : String :=
  if occursIn reserved path.toList || path.toList.contains ' ' then
    String.ofList (escapeFragments path.toList)
  else path

/-- The path of a key.  A text without blanks is its own path, and is not cut. -/
def unescape (key : String) : String :=
  if key.toList.contains ' ' then String.ofList (unescapeFragments key.toList) else key

/-- A name nested in a context, outermost name first.  A context whose dotted text is empty adds
nothing, not even a dot. -/
def join (context : List String) (name : String) : String :=
  let head := Separated.ofPieces '.' context
  if head.isEmpty then name else head ++ "." ++ name

theorem unescapeFragment_escapeFragment (f : List Char) :
    unescapeFragment (escapeFragment f) = f := by
  unfold escapeFragment
  split
  · rfl
  · next h =>
      cases f with
      | nil => rfl
      | cons c f =>
          have hc : c ≠ ' ' := fun hc => h (.inr (by simp [hc]))
          simp [unescapeFragment, hc]

@[simp] theorem join_nil (name : String) : join [] name = name := rfl

end SymbolPath
end ScopeIndex
