import ScopeIndex.Error
import ScopeIndex.Tree.Kind

/-!
# Ancestors of the node being visited

A walk keeps a frame for the node it visits and for each of its named ancestors.  Positions count from the
root, which is at 0; the node being visited is at the last one.

## Main definitions

* `Frame`, `Ancestry` — a visited node, and the visited nodes from the current one up to the root.
* `Ancestry.frameAt?`, `Ancestry.parent?`, `Ancestry.isChild`, `Ancestry.parentKindIs` — questions about a
  position.
* `Ancestry.up` — the ancestry of an ancestor.

## References

The classes `Frame` and `ParentContext` of jsindex.
-/

namespace ScopeIndex

/-- A node on the way from the root to the node being visited. -/
structure Frame where
  /-- The kind of the node. -/
  kind : Kind
  /-- The field of the parent that keeps the node. -/
  field : Option String
  /-- The path of the node, for member accesses. -/
  name : Option String := none
  /-- Did the node add a name to the context of its scope? -/
  pushed : Bool := false
  /-- The children of the node. -/
  children : Forest := .nil
  deriving DecidableEq, Repr

/-- The frames from the node being visited up to the root. -/
structure Ancestry where
  /-- The frames, innermost first. -/
  frames : List Frame := []
  deriving DecidableEq, Repr

namespace Ancestry

/-- The number of frames. -/
def depth (a : Ancestry) : Nat := a.frames.length

/-- Go down to a node. -/
def push (a : Ancestry) (f : Frame) : Ancestry := ⟨f :: a.frames⟩

/-- Change the frame of the node being visited. -/
def modifyTop (a : Ancestry) (g : Frame → Frame) : Ancestry := ⟨a.frames.modifyHead g⟩

/-- Go back up from a node. -/
def pop (a : Ancestry) : Except Underflow (Frame × Ancestry) :=
  match a.frames with
  | [] => .error .pop
  | f :: fs => .ok (f, ⟨fs⟩)

/-- The node being visited. -/
def current (a : Ancestry) : Except Underflow Frame :=
  match a.frames with
  | [] => .error .top
  | f :: _ => .ok f

/-- The ancestry of the ancestor `n` levels up. -/
def up (n : Nat) (a : Ancestry) : Ancestry := ⟨a.frames.drop n⟩

/-- The position of the node being visited. -/
def last (a : Ancestry) : Int := (a.depth : Int) - 1

/-- The frame at a position. -/
def frameAt? (a : Ancestry) (position : Int) : Option Frame :=
  if 0 ≤ position ∧ position < a.depth then a.frames.reverse[position.toNat]? else none

/-- The frame before a position. -/
def parent? (a : Ancestry) (position : Int) : Option Frame := a.frameAt? (position - 1)

/-- Is the node at a position kept under a field of the node before it?  The root is not. -/
def isChild (a : Ancestry) (field : String) (position : Int) : Bool :=
  0 < position && (a.frameAt? position).any fun f => f.field == some field

/-- Is the node before a position of a kind? -/
def parentKindIs (a : Ancestry) (kind : Kind) (position : Int) : Bool :=
  (a.parent? position).any fun f => f.kind == kind

/-- Is the node being visited kept under a field of its parent? -/
def isChildHere (a : Ancestry) (field : String) : Bool := a.isChild field a.last

/-- Is the parent of the node being visited of a kind? -/
def parentKindIsHere (a : Ancestry) (kind : Kind) : Bool := a.parentKindIs kind a.last

/-- The parent of the node being visited. -/
def parentHere? (a : Ancestry) : Option Frame := a.parent? a.last

/-- Is the node being visited kept under a field of a parent of a kind? -/
def isPart (a : Ancestry) (field : String) (kind : Kind) : Bool :=
  a.isChildHere field && a.parentKindIsHere kind

theorem frameAt?_of_lt {a : Ancestry} {i : Nat} (h : i < a.depth) :
    a.frameAt? (a.last - i) = a.frames[i]? := by
  unfold depth at h
  have hp : (0 : Int) ≤ a.last - i ∧ a.last - i < a.depth := by
    simp only [last, depth]; omega
  have hn : (a.last - i).toNat = a.frames.length - 1 - i := by
    simp only [last, depth]; omega
  rw [frameAt?, if_pos hp, hn, List.getElem?_reverse (by omega)]
  congr 1
  omega

@[simp] theorem parentHere?_cons (f : Frame) (fs : List Frame) :
    (Ancestry.mk (f :: fs)).parentHere? = fs.head? := by
  cases fs with
  | nil => simp [parentHere?, parent?, frameAt?, last, depth]
  | cons g fs => exact frameAt?_of_lt (i := 1) (by simp [depth])

@[simp] theorem parentKindIsHere_cons (f : Frame) (fs : List Frame) (kind : Kind) :
    (Ancestry.mk (f :: fs)).parentKindIsHere kind = fs.head?.any (·.kind == kind) := by
  unfold parentKindIsHere parentKindIs
  rw [← parentHere?_cons f fs]
  rfl

@[simp] theorem isChildHere_cons (f : Frame) (fs : List Frame) (field : String) :
    (Ancestry.mk (f :: fs)).isChildHere field = (!fs.isEmpty && f.field == some field) := by
  have hf : (Ancestry.mk (f :: fs)).frameAt? (Ancestry.mk (f :: fs)).last = some f := by
    simpa using frameAt?_of_lt (a := ⟨f :: fs⟩) (i := 0) (by simp [depth])
  unfold isChildHere isChild
  rw [hf]
  cases fs with
  | nil => simp [last, depth]
  | cons g fs => simp [last, depth]

end Ancestry
end ScopeIndex
