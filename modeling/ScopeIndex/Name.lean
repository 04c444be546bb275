import ScopeIndex.Journal.Event
import ScopeIndex.Source
import ScopeIndex.Tree.Kind

/-!
# Names of member chains

The path of a node: an identifier gives its text, a literal its value, and a member access the path of
its object, a dot, and the path of its property.  All other nodes, subscripts that are no literals, and
missing parts give a marker in place of a fragment.  A part that is there but has no name is a *gap*,
and gaps are reported in the order in which the chain is read.

A chain may have any length.  The runtime of jsindex bounds how deep calls nest, and for settings the bound
is kept (`ReadLimits.ofRuntime`), since a file beyond it is refused.  A pass over a source beyond it breaks
off for want of room, which tells nothing about the source; that end is not modelled.

## Main definitions

* `Name` — a path with its gaps.
* `Name.literalValue` — the value of a literal.
* `Name.resolve` — the path of a node.
* `Name.ofKey` — the path of a property key.

## References

The class `PathResolver` and the function `literal_value` of jsindex.
-/

namespace ScopeIndex

/-- The path of a node, and the nodes in it that have no name. -/
structure Name where
  /-- The path. -/
  path : String
  /-- The nodes that only have the marker, in reading order. -/
  gaps : List Label := []
  deriving DecidableEq, Repr

namespace Name

variable (source : Source) (marker : String)

/-- The value of a literal: its text, and for a quoted string the text between the quotes. -/
def literalValue (l : Label) : String :=
  let cs := (source.textOf l).toList
  if l.type = "string" ∧ 2 ≤ cs.length then String.ofList (cs.drop 1).dropLast
  else source.textOf l

/-- The name of a missing part. -/
def missing : Name := ⟨marker, []⟩

/-- The name of a node without one. -/
def gap (l : Label) : Name := ⟨marker, [l]⟩

/-- One name below another. -/
def dot (object property : Name) : Name :=
  ⟨object.path ++ "." ++ property.path, object.gaps ++ property.gaps⟩

/-- The name of a node, given its children and the names of its object and its property, if it has
them. -/
def ofParts (l : Label) (property? : Option Label) (object property : Option Name) : Name :=
  match l.kind with
  | .identifier => ⟨source.textOf l, []⟩
  | .literal => ⟨literalValue source l, []⟩
  | .memberAccess =>
      let object := object.getD (missing marker)
      match property? with
      | some p =>
          -- Only constant subscripts name a property.
          if l.isSubscript ∧ p.kind ≠ .literal then object.dot (gap marker p)
          else object.dot (property.getD (missing marker))
      | none => object.dot (missing marker)
  | _ => gap marker l

/-- The name of the first subtree in a row that is kept under a field. -/
def ofField (field : String) : Forest → Option Name
  | .nil => none
  | .cons l kids rest =>
      if l.field = some field then
        some (ofParts source marker l ((kids.child? l.propertyField).map (·.label))
          (ofField "object" kids) (ofField l.propertyField kids))
      else ofField field rest

/-- The name of a node. -/
def resolve (t : Tree) : Name :=
  ofParts source marker t.label (t.property?.map (·.label))
    (ofField source marker "object" t.children)
    (ofField source marker t.label.propertyField t.children)

/-- The name of a node that may be missing. -/
def resolve? (t : Option Tree) : Name := (t.map (resolve source marker)).getD (missing marker)

/-- The name of a property key: identifiers and literals name a property, other nodes do not. -/
def ofKey (t : Tree) : Name :=
  match t.label.kind with
  | .identifier | .literal => resolve source marker t
  | _ => gap marker t.label

/-- The name of a property key that may be missing. -/
def ofKey? (t : Option Tree) : Name := (t.map (ofKey source marker)).getD (missing marker)

/-- The reports of the gaps in a name. -/
def events (n : Name) : List Event := n.gaps.map fun l => .unresolved l.type (source.lineOf l)

end Name
end ScopeIndex
