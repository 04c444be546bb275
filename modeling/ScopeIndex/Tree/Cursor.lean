import ScopeIndex.Tree.Basic

/-!
# Walking a tree

A walk enters every node before its children and leaves it after them.  It is written twice: as the
recursive list of visits of a row of subtrees, and as a loop that moves a cursor to the first child, to
the next sibling or back to the parent.

## Main definitions

* `Visit` — entering or leaving a node.
* `Forest.visits`, `Tree.visits` — the walk by recursion.
* `Cursor` with `firstChild?`, `nextSibling?`, `parent?` — a position in a tree and its moves.
* `Cursor.visits` — the walk by cursor moves.

## References

The method `_walk` of `ScopeIndexer` in jsindex.
-/

namespace ScopeIndex

/-- One step of a walk. -/
inductive Visit where
  /-- The walk reaches a node; its children are still to come. -/
  | enter (node : Tree)
  /-- The walk has finished a node and its children. -/
  | leave (node : Tree)
  deriving DecidableEq, Repr

/-- The walk over a row of subtrees. -/
def Forest.visits : Forest → List Visit
  | .nil => []
  | .cons l kids rest => .enter ⟨l, kids⟩ :: kids.visits ++ .leave ⟨l, kids⟩ :: rest.visits

/-- The walk over a tree. -/
def Tree.visits (t : Tree) : List Visit := t.toForest.visits

/-- A node of a tree with the siblings that follow it. -/
structure Place where
  /-- The node. -/
  node : Tree
  /-- The siblings behind it. -/
  rest : Forest
  deriving DecidableEq, Repr

/-- A position in a tree: a place, and the places of its ancestors, parent first. -/
structure Cursor where
  /-- Where the cursor stands. -/
  here : Place
  /-- Where its ancestors stand, parent first. -/
  above : List Place
  deriving DecidableEq, Repr

namespace Cursor

/-- The cursor at the root of a tree. -/
def ofTree (t : Tree) : Cursor := ⟨⟨t, .nil⟩, []⟩

/-- Move to the first child. -/
def firstChild? (c : Cursor) : Option Cursor :=
  match c.here.node.children with
  | .nil => none
  | .cons l kids rest => some ⟨⟨⟨l, kids⟩, rest⟩, c.here :: c.above⟩

/-- Move to the next sibling. -/
def nextSibling? (c : Cursor) : Option Cursor :=
  match c.here.rest with
  | .nil => none
  | .cons l kids rest => some ⟨⟨⟨l, kids⟩, rest⟩, c.above⟩

/-- Move to the parent. -/
def parent? (c : Cursor) : Option Cursor :=
  match c.above with
  | [] => none
  | p :: ps => some ⟨p, ps⟩

/-- The nodes to the right of the cursor: later siblings of it and of its ancestors, and what is below
those. -/
def pending (c : Cursor) : Nat := c.here.rest.size + c.above.foldr (fun p n => p.rest.size + n) 0

theorem pending_firstChild {c d : Cursor} (h : c.firstChild? = some d) :
    d.here.node.children.size + d.pending + 1 = c.here.node.children.size + c.pending := by
  unfold firstChild? at h
  split at h
  · cases h
  · next hc =>
      cases h
      simp [pending, hc, Forest.size]
      omega

theorem pending_nextSibling {c d : Cursor} (h : c.nextSibling? = some d) :
    d.here.node.children.size + d.pending + 1 = c.pending := by
  unfold nextSibling? at h
  split at h
  · cases h
  · next hc =>
      cases h
      simp [pending, hc, Forest.size]
      omega

theorem pending_parent {c d : Cursor} (h : c.parent? = some d) (hs : c.nextSibling? = none) :
    d.pending = c.pending ∧ d.above.length < c.above.length := by
  unfold parent? at h
  split at h
  · cases h
  · next hc =>
      cases h
      unfold nextSibling? at hs
      split at hs
      · next hr => simp [pending, hc, hr, Forest.size]
      · cases hs

mutual

/-- The walk from a node the cursor has just reached: enter it, then go on with its first child, or turn
back when it has none. -/
def descend (c : Cursor) : List Visit :=
  .enter c.here.node ::
    match _h : c.firstChild? with
    | some d => descend d
    | none => ascend c
termination_by (c.here.node.children.size + c.pending, c.above.length + 1)
decreasing_by
  · have := pending_firstChild _h
    exact Prod.Lex.left _ _ (by omega)
  · have hk : c.here.node.children.size = 0 := by
      unfold firstChild? at _h
      split at _h
      · next hc => simp [hc, Forest.size]
      · cases _h
    rw [hk, Nat.zero_add]
    exact Prod.Lex.right _ (Nat.lt_succ_self _)

/-- The walk from a node whose children are done: leave it, then go on with its next sibling, or turn
back to its parent when it has none.  The walk ends at the root. -/
def ascend (c : Cursor) : List Visit :=
  .leave c.here.node ::
    match _hs : c.nextSibling? with
    | some d => descend d
    | none =>
        match _hp : c.parent? with
        | some d => ascend d
        | none => []
termination_by (c.pending, c.above.length)
decreasing_by
  · have := pending_nextSibling _hs
    exact Prod.Lex.left _ _ (by omega)
  · obtain ⟨h₁, h₂⟩ := pending_parent _hp _hs
    rw [h₁]
    exact Prod.Lex.right _ h₂

end

/-- The walk from the root by cursor moves. -/
def visits (t : Tree) : List Visit := descend (ofTree t)

end Cursor
end ScopeIndex
