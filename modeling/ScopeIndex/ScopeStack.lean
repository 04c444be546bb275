import ScopeIndex.Error
import ScopeIndex.Slice
import ScopeIndex.SymbolTable

/-!
# Scopes and the stack of open scopes

A scope is opened by a node and owns a symbol table.  The stack keeps every scope that was ever opened,
in the order of opening, and beside them the positions of those that are still open.

An occurrence of a path is recorded in the innermost open scope that already knows the path, or in the
innermost open scope if none does; a declaring one always goes to the innermost.  Both rules can skip a
number of innermost scopes, for names that belong outside the scope that their own node opens.

## Main definitions

* `Scope`, `ScopeStack` — a scope, and all scopes with the open ones.
* `StackM` — what can be done with a stack, and can fail.
* `ScopeStack.push`, `ScopeStack.pop` — opening and closing.
* `ScopeStack.enclosing`, `ScopeStack.find?`, `ScopeStack.record` — where an occurrence goes.

## References

The classes `Scope` and `ScopeStack` of jsindex.
-/

namespace ScopeIndex

/-- A lexical scope while its source is being indexed. -/
structure Scope where
  /-- The number of the node that opened the scope. -/
  owner : Int
  /-- The type of that node. -/
  type : String
  /-- The bytes of that node. -/
  span : Span
  /-- How many scopes were open when this one was opened. -/
  depth : Nat := 0
  /-- The occurrences the scope owns. -/
  table : SymbolTable := {}
  /-- The names of the object literals being read in this scope, outermost first. -/
  context : List String := []
  deriving DecidableEq, Repr

instance : Inhabited Scope := ⟨{ owner := 0, type := "", span := ⟨0, 0⟩ }⟩

namespace Scope

/-- The scope that a node opens. -/
def ofLabel (l : Label) : Scope := { owner := l.id, type := l.type, span := l.span }

/-- A scope in one line: type, range and number of symbols. -/
def describe (s : Scope) : String :=
  "Scope(" ++ s.type ++ ", " ++ toString s.span.start ++ "-" ++ toString s.span.stop ++ ", symbols="
    ++ toString s.table.size ++ ")"

/-- The scope with one more occurrence of a path. -/
def add (s : Scope) (path : String) (span : Span) : Scope := { s with table := s.table.add path span }

end Scope

/-- All scopes in the order of opening, and which of them are open. -/
structure ScopeStack where
  /-- Every scope that was ever opened. -/
  scopes : List Scope
  /-- The positions of the open scopes, innermost first. -/
  chain : List Nat
  /-- Every open scope is there. -/
  bounded : ∀ i ∈ chain, i < scopes.length
  /-- An inner scope was opened after the scopes around it. -/
  descending : chain.Pairwise (· > ·)
  deriving DecidableEq

/-- What can be done with a stack of scopes.  It gives something back or fails, and leaves a stack behind in
both cases. -/
abbrev StackM := EStateM ScopeFault ScopeStack

namespace ScopeStack

/-- The stack before any scope is opened. -/
def empty : ScopeStack where
  scopes := []
  chain := []
  bounded := fun _ h => nomatch h
  descending := .nil

/-- The number of open scopes. -/
def depth (s : ScopeStack) : Nat := s.chain.length

/-- The scope at a position; a scope without symbols past the end. -/
def scopeAt (s : ScopeStack) (i : Nat) : Scope := (s.scopes[i]?).getD default

/-- The open scopes, outermost first. -/
def openScopes (s : ScopeStack) : List Scope := s.chain.reverse.map s.scopeAt

/-- Change the scope at a position. -/
def modify (s : ScopeStack) (i : Nat) (f : Scope → Scope) : ScopeStack where
  scopes := s.scopes.modify i f
  chain := s.chain
  bounded := by simpa using s.bounded
  descending := s.descending

/-- Open a scope. -/
def push (s : ScopeStack) (scope : Scope) : ScopeStack where
  scopes := s.scopes ++ [{ scope with depth := s.depth }]
  chain := s.scopes.length :: s.chain
  bounded := by
    intro i hi
    rcases List.mem_cons.1 hi with rfl | hi
    · simp
    · simpa using Nat.lt_succ_of_lt (s.bounded i hi)
  descending := List.pairwise_cons.2 ⟨s.bounded, s.descending⟩

/-- The stack without its innermost scope, which stays among all scopes. -/
def dropInnermost (s : ScopeStack) : ScopeStack where
  scopes := s.scopes
  chain := s.chain.tail
  bounded := fun i hi => s.bounded i (List.mem_of_mem_tail hi)
  descending := s.descending.tail

/-- The position of the innermost open scope. -/
def innermost (s : ScopeStack) : Except ScopeFault Nat :=
  match s.chain with
  | [] => .error .noneOpen
  | i :: _ => .ok i

/-- Close the innermost scope, by the node that opened it. -/
def pop (id : Int) (type : String) : StackM Scope := do
  let s ← get
  match s.chain with
  | [] => throw (.unopened type)
  | i :: _ =>
      let scope := s.scopeAt i
      if scope.owner ≠ id then throw (.mismatched scope.type type)
      set s.dropInnermost
      return scope

/-- The position of the open scope `skip` levels out from the innermost. -/
def enclosing (s : ScopeStack) (skip : Int) : Except ScopeFault Nat :=
  if skip < 0 then .error (.outOfReach skip)
  else
    match s.chain[skip.toNat]? with
    | some i => .ok i
    | none => .error (.outOfReach skip)

/-- The position of the innermost open scope that knows a path.  The search leaves out what lies behind
position `depth - skip` from the outermost; a negative position counts from the innermost. -/
def find? (s : ScopeStack) (path : String) (skip : Int) : Option Nat :=
  (Slice.front (s.depth - skip) s.chain.reverse).reverse.find? fun i =>
    (s.scopeAt i).table.contains path

/-- The position of the scope an occurrence goes to. -/
def target (s : ScopeStack) (path : String) (declaring : Bool) (skip : Int) : Except ScopeFault Nat :=
  match if declaring then none else s.find? path skip with
  | some i => .ok i
  | none => s.enclosing skip

/-- Record an occurrence of a path. -/
def record (path : String) (span : Span) (declaring : Bool) (skip : Int) : StackM Occurrence := do
  let s ← get
  let i ← MonadExcept.ofExcept (s.target path declaring skip)
  set (s.modify i (·.add path span))
  return (s.scopeAt i).table.occurrence path span

/-- What closing a scope comes to.  Nothing is changed before all is checked. -/
theorem run_pop (s : ScopeStack) (id : Int) (type : String) :
    (pop id type).run s =
      match s.chain with
      | [] => .error (.unopened type) s
      | i :: _ =>
          if (s.scopeAt i).owner = id then .ok (s.scopeAt i) s.dropInnermost
          else .error (.mismatched (s.scopeAt i).type type) s := by
  simp only [pop, EStateM.run_bind, EStateM.run_get]
  cases s.chain with
  | nil => rfl
  | cons i is =>
    by_cases h : (s.scopeAt i).owner = id
    · simp only [h, ne_eq, not_true_eq_false, if_false, if_true]
      rfl
    · simp only [h, ne_eq, not_false_eq_true, if_true, if_false]
      rfl

/-- What recording an occurrence comes to.  Nothing is changed before its scope is found. -/
theorem run_record (s : ScopeStack) (path : String) (span : Span) (declaring : Bool) (skip : Int) :
    (record path span declaring skip).run s =
      match s.target path declaring skip with
      | .error fault => .error fault s
      | .ok i => .ok ((s.scopeAt i).table.occurrence path span) (s.modify i (·.add path span)) := by
  simp only [record, EStateM.run_bind, EStateM.run_get]
  cases s.target path declaring skip with
  | error fault => rfl
  | ok i => rfl

@[simp] theorem scopes_modify (s : ScopeStack) (i : Nat) (f : Scope → Scope) :
    (s.modify i f).scopes = s.scopes.modify i f := rfl

@[simp] theorem chain_modify (s : ScopeStack) (i : Nat) (f : Scope → Scope) :
    (s.modify i f).chain = s.chain := rfl

@[simp] theorem chain_push (s : ScopeStack) (scope : Scope) :
    (s.push scope).chain = s.scopes.length :: s.chain := rfl

@[simp] theorem scopes_dropInnermost (s : ScopeStack) : s.dropInnermost.scopes = s.scopes := rfl

@[simp] theorem chain_dropInnermost (s : ScopeStack) : s.dropInnermost.chain = s.chain.tail := rfl

end ScopeStack
end ScopeIndex
