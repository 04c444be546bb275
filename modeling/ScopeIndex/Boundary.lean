import ScopeIndex.Error
import ScopeIndex.Tree.Basic

/-!
# Scope boundaries

A boundary decides which nodes open a scope and which nodes close one, by their types.  It is opened on a
tree before a walk and closed after it.

## Main definitions

* `Boundary` with `opens`, `closes` — the decision.
* `Boundary.ofTypes` — the boundary whose scopes are closed by the nodes that opened them.
* `Boundary.attach`, `Boundary.detach` — opening a boundary on a tree, and closing it.

## References

The classes `ScopeManager` and `TreeSitterScopeManager` of jsindex.
-/

namespace ScopeIndex

/-- Which nodes open and which close a scope. -/
structure Boundary where
  /-- The types that open a scope. -/
  opening : List String
  /-- The types that close a scope. -/
  closing : List String
  /-- The tree the boundary is opened on. -/
  tree : Option Tree := none
  deriving DecidableEq, Repr

namespace Boundary

/-- The boundary whose scopes are opened and closed by the same nodes. -/
def ofTypes (types : List String) : Boundary := ⟨types, types, none⟩

/-- Does a node open a scope?  A keyword that shares its type with a node does not. -/
def opens (b : Boundary) (l : Label) : Bool := l.named && b.opening.contains l.type

/-- Does a node close a scope? -/
def closes (b : Boundary) (l : Label) : Bool := l.named && b.closing.contains l.type

/-- Open the boundary on a tree. -/
def attach (b : Boundary) (tree : Option Tree) : Except IndexingError Boundary :=
  match tree with
  | none => .error ⟨.unattached, none⟩
  | some t => .ok { b with tree := some t }

/-- Close the boundary. -/
def detach (b : Boundary) : Boundary := { b with tree := none }

end Boundary
end ScopeIndex
