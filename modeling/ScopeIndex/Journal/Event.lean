import ScopeIndex.Json.Value

/-!
# Events

What an indexing pass reports while it works.  Every event has a level, a title and fields.

## Main definitions

* `Level` — how grave an event is.
* `Event` — the events of indexing, with `level`, `title` and `fields`.

## References

The calls of the logger in jsindex.
-/

namespace ScopeIndex

/-- How grave an event is. -/
inductive Level where
  /-- Of interest to who looks for a fault. -/
  | debug
  /-- Of general interest. -/
  | info
  /-- Something may be wrong. -/
  | warning
  /-- Something is wrong. -/
  | error
  /-- Nothing works any more. -/
  | critical
  deriving DecidableEq, Repr

namespace Level

/-- The rank of a level; graver ones rank higher. -/
def rank : Level → Nat
  | debug => 10
  | info => 20
  | warning => 30
  | error => 40
  | critical => 50

/-- The word for a level. -/
def name : Level → String
  | debug => "debug"
  | info => "info"
  | warning => "warning"
  | error => "error"
  | critical => "critical"

/-- The level that a word stands for. -/
def ofName? (s : String) : Option Level := [debug, info, warning, error, critical].find? (·.name = s)

end Level

/-- What an indexing pass reports. -/
inductive Event where
  /-- A node of a type opened a scope at a depth. -/
  | scopeOpened (type : String) (depth : Nat)
  /-- A node of a type, on a line, has no name of its own in a member chain. -/
  | unresolved (type : String) (line : Nat)
  /-- A source is indexed although it has a syntax error on this line. -/
  | faultySource (line : Nat)
  /-- A source was indexed. -/
  | indexed (scopes symbols : Nat)
  deriving DecidableEq, Repr

namespace Event

/-- The level of an event. -/
def level : Event → Level
  | faultySource _ => .warning
  | _ => .debug

/-- The title of an event. -/
def title : Event → String
  | scopeOpened _ _ => "Scope opened"
  | unresolved _ _ => "Unresolved path fragment"
  | faultySource _ => "Indexing source with syntax errors"
  | indexed _ _ => "Indexed source"

/-- The fields of an event. -/
def fields : Event → Members Json
  | scopeOpened type depth => [("node_type", .text type), ("depth", .int depth)]
  | unresolved type line => [("node_type", .text type), ("line", .int line)]
  | faultySource line => [("line", .int line)]
  | indexed scopes symbols => [("scopes", .int scopes), ("symbols", .int symbols)]

end Event
end ScopeIndex
