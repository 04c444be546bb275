import ScopeIndex.Tree.Basic

/-!
# Kinds of nodes

Indexing tells nine kinds of nodes apart.  The kind of a named node depends on its type alone; a node
that is not named has no part in naming, whatever its type.

## Main definitions

* `Kind` — the kinds.
* `Kind.ofType`, `Label.kind` — the kind of a type and of a node.
* `Forest.property?` — the accessed property of a member access.

## References

The class `NodeKind` and the functions `classify` and `member_property` of jsindex.
-/

namespace ScopeIndex

/-- What a node is to the index. -/
inductive Kind where
  /-- A bare name. -/
  | identifier
  /-- A property of an object, dotted or subscripted. -/
  | memberAccess
  /-- An object literal. -/
  | objectLiteral
  /-- A variable with its initial value. -/
  | variableBinding
  /-- A key and a value in an object literal. -/
  | property
  /-- A method with its name and body. -/
  | method
  /-- A constant. -/
  | literal
  /-- The current object. -/
  | selfReference
  /-- Anything else. -/
  | other
  deriving DecidableEq, Repr, Inhabited

namespace Kind

/-- The word for a kind. -/
def name : Kind → String
  | identifier => "identifier"
  | memberAccess => "member_access"
  | objectLiteral => "object_literal"
  | variableBinding => "variable_binding"
  | property => "property"
  | method => "method"
  | literal => "literal"
  | selfReference => "self_reference"
  | other => "other"

/-- All kinds. -/
def all : List Kind :=
  [identifier, memberAccess, objectLiteral, variableBinding, property, method, literal, selfReference,
    other]

/-- The kind that a word stands for. -/
def ofName? (s : String) : Option Kind := all.find? (·.name = s)

/-- The types that are of a kind other than `other`. -/
def types : List (String × Kind) :=
  [("identifier", identifier),
    ("property_identifier", identifier),
    ("private_property_identifier", identifier),
    ("shorthand_property_identifier", identifier),
    ("shorthand_property_identifier_pattern", identifier),
    ("member_expression", memberAccess),
    ("subscript_expression", memberAccess),
    ("object", objectLiteral),
    ("variable_declarator", variableBinding),
    ("pair", property),
    ("method_definition", method),
    ("string", literal),
    ("number", literal),
    ("true", literal),
    ("false", literal),
    ("null", literal),
    ("regex", literal),
    ("this", selfReference)]

/-- The kind of a type. -/
def ofType (type : String) : Kind := (types.lookup type).getD other

end Kind

/-- The kind of a node. -/
def Label.kind (l : Label) : Kind := if l.named then Kind.ofType l.type else .other

/-- Is the node a subscripted member access? -/
def Label.isSubscript (l : Label) : Bool := l.type = "subscript_expression"

/-- The field that keeps the accessed property of a member access. -/
def Label.propertyField (l : Label) : String := if l.isSubscript then "index" else "property"

/-- The accessed property of a member access. -/
def Tree.property? (t : Tree) : Option Tree := t.child? t.label.propertyField

end ScopeIndex
