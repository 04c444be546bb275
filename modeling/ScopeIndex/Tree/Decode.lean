import ScopeIndex.Json.Value
import ScopeIndex.Tree.Basic

/-!
# Trees in JSON

A parser hands a tree over as JSON.  A node is an array of six items: its type, its first byte, the byte
behind its last, its field or null, a text of marks, and the array of its children.  The marks are `a`
for a node that is not named, `m` for one the parser made up, and `e` for one it flags.

## Main definitions

* `Forest.ofJson?`, `Tree.ofJson?` — the tree that a JSON value spells out.
-/

namespace ScopeIndex

/-- The field of a node: a text, or null for none. -/
def Label.fieldOfJson? : Json → Option (Option String)
  | .null => some none
  | .text s => some (some s)
  | _ => none

/-- The row of subtrees that an array spells out. -/
def Forest.ofJson? : List Json → Option Forest
  | [] => some .nil
  | .list [.text type, .int start, .int stop, field, .text marks, .list kids] :: rest => do
      let field ← Label.fieldOfJson? field
      let label : Label :=
        { type, span := ⟨start, stop⟩, field, named := !marks.contains 'a',
          missing := marks.contains 'm', flagged := marks.contains 'e' }
      return .cons label (← Forest.ofJson? kids) (← Forest.ofJson? rest)
  | _ => none

/-- The tree that a value spells out. -/
def Tree.ofJson? (v : Json) : Option Tree :=
  match Forest.ofJson? [v] with
  | some (.cons l kids .nil) => some ⟨l, kids⟩
  | _ => none

end ScopeIndex
