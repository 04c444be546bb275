/-!
# Syntax trees

A parser delivers a syntax tree: nodes that carry a type, a byte range, the name of the field their
parent keeps them under, and a few marks.  A row of sibling subtrees is a `Forest`, in first-child,
next-sibling form, so that a walk over a tree is plain recursion on a forest.

Nodes are numbered in pre-order, the root being 1; a number tells a node from every other node of its
tree.

## Main definitions

* `Label`, `Forest`, `Tree` — nodes without their children, rows of subtrees, trees.
* `Forest.child?` — the first of a row that is kept under a given field.
* `Forest.preorder` — the nodes of a row in pre-order.
* `Forest.numbered`, `Tree.numbered` — the same nodes, numbered in pre-order.

## Main results

* `Forest.preorder_numbered_ids` — the numbers are the consecutive ones, in pre-order.
-/

namespace ScopeIndex

/-- A range of bytes, from `start` up to and without `stop`. -/
structure Span where
  /-- The first byte. -/
  start : Int
  /-- The byte behind the last one. -/
  stop : Int
  deriving DecidableEq, Repr, Inhabited

/-- What a node says of itself, its children apart. -/
structure Label where
  /-- The number of the node in its tree; 0 before the nodes are numbered. -/
  id : Nat := 0
  /-- The type the grammar gives the node. -/
  type : String
  /-- The bytes the node stands for. -/
  span : Span
  /-- The field of the parent that keeps the node. -/
  field : Option String := none
  /-- Is the node named?  Punctuation and keywords are not. -/
  named : Bool := true
  /-- Did the parser make the node up to go on? -/
  missing : Bool := false
  /-- Does the parser report an error at or below the node, whatever its children say? -/
  flagged : Bool := false
  deriving DecidableEq, Repr, Inhabited

/-- A row of sibling subtrees. -/
inductive Forest where
  /-- No subtree. -/
  | nil : Forest
  /-- A first subtree, given by its root and the row of its children, and the row behind it. -/
  | cons (label : Label) (children : Forest) (rest : Forest) : Forest
  deriving DecidableEq, Repr, Inhabited

/-- A syntax tree. -/
structure Tree where
  /-- The root. -/
  label : Label
  /-- The children of the root. -/
  children : Forest
  deriving DecidableEq, Repr, Inhabited

namespace Forest

/-- The number of nodes. -/
def size : Forest → Nat
  | nil => 0
  | cons _ kids rest => 1 + kids.size + rest.size

/-- One row behind another. -/
def append : Forest → Forest → Forest
  | nil, g => g
  | cons l kids rest, g => cons l kids (rest.append g)

/-- The first subtree of the row that is kept under a field. -/
def child? (field : String) : Forest → Option Tree
  | nil => none
  | cons l kids rest => if l.field = some field then some ⟨l, kids⟩ else rest.child? field

/-- The nodes in pre-order. -/
def preorder : Forest → List Label
  | nil => []
  | cons l kids rest => l :: kids.preorder ++ rest.preorder

/-- The same row with its nodes numbered in pre-order from `n` on. -/
def numbered (n : Nat) : Forest → Forest
  | nil => nil
  | cons l kids rest =>
      cons { l with id := n } (kids.numbered (n + 1)) (rest.numbered (n + 1 + kids.size))

@[simp] theorem size_append (f g : Forest) : (f.append g).size = f.size + g.size := by
  induction f with
  | nil => simp [append, size]
  | cons l kids rest _ ih => simp [append, size, ih]; omega

@[simp] theorem preorder_append (f g : Forest) :
    (f.append g).preorder = f.preorder ++ g.preorder := by
  induction f with
  | nil => rfl
  | cons l kids rest _ ih => simp [append, preorder, ih]

@[simp] theorem length_preorder (f : Forest) : f.preorder.length = f.size := by
  induction f with
  | nil => rfl
  | cons l kids rest ihk ihr => simp [preorder, size, ihk, ihr]; omega

@[simp] theorem size_numbered (n : Nat) (f : Forest) : (f.numbered n).size = f.size := by
  induction f generalizing n with
  | nil => rfl
  | cons l kids rest ihk ihr => simp [numbered, size, ihk, ihr]

/-- Numbering from `n` gives the nodes the numbers from `n` on, in pre-order. -/
theorem preorder_numbered_ids (n : Nat) (f : Forest) :
    (f.numbered n).preorder.map (·.id) = List.range' n f.size := by
  induction f generalizing n with
  | nil => rfl
  | cons l kids rest ihk ihr =>
      simp only [numbered, preorder, List.cons_append, List.map_cons, List.map_append, ihk, ihr, size]
      rw [show 1 + kids.size + rest.size = (kids.size + rest.size) + 1 by omega, List.range'_succ,
        ← List.range'_append_1]

end Forest

namespace Tree

/-- The row that holds the tree alone. -/
def toForest (t : Tree) : Forest := .cons t.label t.children .nil

/-- The first child that is kept under a field. -/
def child? (t : Tree) (field : String) : Option Tree := t.children.child? field

/-- The same tree with its nodes numbered in pre-order, the root being 1. -/
def numbered (t : Tree) : Tree := ⟨{ t.label with id := 1 }, t.children.numbered 2⟩

end Tree
end ScopeIndex
