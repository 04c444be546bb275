import ScopeIndex.Tree.Basic

/-!
# Occurrences

An occurrence of a name is a byte range and whether it is the one that declares the name.

## References

The class `Occurrence` of jsindex.
-/

namespace ScopeIndex

/-- An occurrence of a name. -/
structure Occurrence where
  /-- The bytes of the name. -/
  span : Span
  /-- Is this the occurrence that declares the name in its scope? -/
  declaring : Bool := false
  deriving DecidableEq, Repr

end ScopeIndex
