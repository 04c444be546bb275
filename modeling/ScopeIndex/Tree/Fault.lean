import ScopeIndex.Tree.Basic

/-!
# Faults in a tree

A node is faulty when the parser marks it as an error or made it up.  A subtree has an error when its
root is faulty or flagged, or when one of its children's subtrees has an error.  The first faulty node in
pre-order is found with a worklist that never enters a subtree without an error.

## Main definitions

* `Label.isFault`, `Forest.hasError`, `Tree.hasError` — faulty nodes and subtrees with errors.
* `Forest.firstFault?` — the first faulty node, by a pruned search.
* `Tree.faultLabel` — the node whose line a syntax error is reported at.

## References

The function `_first_error_line` of jsindex, and the error flags of its trees.
-/

namespace ScopeIndex

/-- Is the node itself an error? -/
def Label.isFault (l : Label) : Bool := l.type = "ERROR" || l.missing

namespace Forest

/-- Does some subtree of the row have an error? -/
def hasError : Forest → Bool
  | nil => false
  | cons l kids rest => l.isFault || l.flagged || kids.hasError || rest.hasError

/-- The first faulty node of a worklist of subtrees, front subtree first.  The children of a node that
is not faulty are put in front of the list if its subtree has an error, and dropped otherwise. -/
def firstFault? : Forest → Option Label
  | nil => none
  | cons l kids rest =>
      if l.isFault then some l
      else if l.flagged || kids.hasError then firstFault? (kids.append rest)
      else firstFault? rest
termination_by f => f.size
decreasing_by
  · simp only [size_append, size]; omega
  · simp only [size]; omega

end Forest

namespace Tree

/-- Does the tree have an error? -/
def hasError (t : Tree) : Bool := t.label.isFault || t.label.flagged || t.children.hasError

/-- The node at which a syntax error is reported: the first faulty one, or the root when an error is
flagged without a faulty node. -/
def faultLabel (t : Tree) : Label := (t.toForest.firstFault?).getD t.label

end Tree
end ScopeIndex
