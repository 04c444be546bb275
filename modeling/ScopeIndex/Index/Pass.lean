import ScopeIndex.Ancestry
import ScopeIndex.FileIndex
import ScopeIndex.Name
import ScopeIndex.Tree.Cursor

/-!
# The indexing pass

One walk over a syntax tree records every occurrence of every name.  Entering a named node puts a frame on
the ancestry, opens a scope if the job says so, and then does what the kind of the node asks for:

* an object literal that is the value of a binding or of a property adds the name of that binding or
  property to the context of the innermost scope, so that names inside it are nested below it;
* a member access gets its path, and a constant subscript is recorded under it at once, since it is never
  visited as an identifier;
* a method of an object literal has its name recorded, outside the scope that it may open itself;
* an identifier is recorded under the path of its member access, under its own name, or not at all when
  its method has recorded it already.

Leaving a named node takes its frame off, takes its name off the context and closes its scope.

## Main definitions

* `Job` — what stays the same during a pass.
* `Pass` — what a pass has gathered so far.
* `Pass.enter`, `Pass.leave`, `Pass.step` — one visit.
* `Pass.run` — a whole walk.

## References

The class `ScopeIndexer` of jsindex.
-/

namespace ScopeIndex

/-- What stays the same during a pass.  Which nodes open and which close a scope is any decision about a
node; nodes are numbered, so two nodes that are alike otherwise may be decided differently. -/
structure Job where
  /-- The source of the tree. -/
  source : Source
  /-- The name of the file in diagnostics. -/
  path : String
  /-- What stands for a fragment without a name. -/
  marker : String
  /-- Does a named node open a scope? -/
  opens : Label → Bool
  /-- Does a named node close a scope? -/
  closes : Label → Bool

/-- What a pass has gathered so far. -/
structure Pass where
  /-- The node being visited and its named ancestors. -/
  ancestry : Ancestry := {}
  /-- All scopes, and the open ones. -/
  stack : ScopeStack := .empty
  /-- The events so far. -/
  journal : Array Event := #[]
  deriving DecidableEq

/-- A pass that failed, with the events up to the failure. -/
structure Stop where
  /-- Why it failed. -/
  failure : Failure
  /-- The events before the failure. -/
  journal : Array Event
  deriving DecidableEq, Repr

/-! ### What a node asks for -/

namespace Ancestry

/-- Does the identifier being visited name the property of a member access? -/
def isAccessedProperty (a : Ancestry) : Bool := a.isPart "property" .memberAccess

/-- Is the method name being visited the name of a method of an object literal? -/
def isLiteralMethodName (a : Ancestry) : Bool :=
  a.isPart "name" .method && (a.up 1).parentKindIsHere .objectLiteral

/-- Does the object literal being visited initialise a binding? -/
def initialisesBinding (a : Ancestry) : Bool := a.isPart "value" .variableBinding

/-- Does the identifier being visited declare a name: a binding, or a property of an object literal that
initialises one? -/
def isDeclaring (a : Ancestry) : Bool :=
  a.isPart "name" .variableBinding ||
    (a.isPart "key" .property && (a.up 1).parentKindIsHere .objectLiteral &&
      (a.up 2).initialisesBinding)

end Ancestry

namespace Job

variable (job : Job)

/-- The name that the object literal being visited adds to the context, if any: that of the binding it
initialises, unless the binding takes a pattern apart, or that of the property it is the value of. -/
def contextName? (a : Ancestry) : Option Name :=
  if a.initialisesBinding then
    match a.parentHere?.bind (·.children.child? "name") with
    | some n => if n.label.kind = .identifier then some ⟨job.source.textOf n.label, []⟩ else none
    | none => none
  else if a.isPart "value" .property then
    some (Name.ofKey? job.source job.marker (a.parentHere?.bind (·.children.child? "key")))
  else none

/-- The path of a member access. -/
def accessName (node : Tree) : Name := Name.resolve job.source job.marker node

end Job

/-! ### Steps -/

namespace Pass

variable (job : Job)

/-- Give up. -/
def fail {α : Type} (p : Pass) (failure : Failure) : Except Stop α := .error ⟨failure, p.journal⟩

/-- Give up if scopes do not match up. -/
def check {α : Type} (p : Pass) (x : Except ScopeFault α) : Except Stop α :=
  match x with
  | .ok a => .ok a
  | .error fault => p.fail (.ofCause job.path (.scope fault))

/-- Give up if the stack of scopes does not do what is asked for.  What it leaves behind then is of no
account any more. -/
def checkRun {α : Type} (p : Pass) (x : StackM α) : Except Stop (α × ScopeStack) :=
  match x.run p.stack with
  | .ok a stack => .ok (a, stack)
  | .error fault _ => p.fail (.ofCause job.path (.scope fault))

/-- Write events to the journal. -/
def note (p : Pass) (events : List Event) : Pass := { p with journal := p.journal ++ events.toArray }

/-- Write the gaps of a name to the journal. -/
def noteGaps (p : Pass) (n : Name) : Pass := p.note (n.events job.source)

/-- Open the scope of a node. -/
def openScope (p : Pass) (l : Label) : Pass :=
  { p with stack := p.stack.push (.ofLabel l) }.note [.scopeOpened l.type p.stack.depth]

/-- Record a name that stands at a range, nested in the context of the scope `skip` levels out. -/
def record (p : Pass) (name : String) (span : Span) (declaring : Bool) (skip : Nat) :
    Except Stop Pass := do
  let i ← p.check job (p.stack.enclosing skip)
  let path := SymbolPath.join (p.stack.scopeAt i).context name
  let (_, stack) ← p.checkRun job (ScopeStack.record path span declaring skip)
  return { p with stack }

/-- Add the name of an object literal, if it has one, to the context of the innermost scope. -/
def enterObjectLiteral (p : Pass) : Except Stop Pass :=
  match job.contextName? p.ancestry with
  | none => .ok p
  | some n => do
      let p := p.noteGaps job n
      let i ← p.check job p.stack.innermost
      return { p with
        ancestry := p.ancestry.modifyTop fun f => { f with pushed := true }
        stack := p.stack.modify i fun s => { s with context := s.context ++ [n.path] } }

/-- Give a member access its path, and record a constant subscript under it. -/
def enterMemberAccess (p : Pass) (node : Tree) : Except Stop Pass :=
  let n := job.accessName node
  let p := { p with ancestry := p.ancestry.modifyTop fun f => { f with name := some n.path } }
  let p := p.noteGaps job n
  match node.property? with
  | some property =>
      if property.label.kind = .literal then p.record job n.path property.label.span false 0 else .ok p
  | none => .ok p

/-- Record the name of a method of an object literal, outside the scope that the method opens. -/
def enterMethod (p : Pass) (node : Tree) : Except Stop Pass :=
  if p.ancestry.parentKindIsHere .objectLiteral then
    match node.child? "name" with
    | none => .ok p
    | some name => do
        let i ← p.check job p.stack.innermost
        let skip := if (p.stack.scopeAt i).owner = node.label.id then 1 else 0
        let n := Name.ofKey job.source job.marker name
        (p.noteGaps job n).record job n.path name.label.span (p.ancestry.up 1).initialisesBinding skip
  else .ok p

/-- Record an identifier, unless its method has done so. -/
def enterIdentifier (p : Pass) (node : Tree) : Except Stop Pass :=
  let a := p.ancestry
  if a.isAccessedProperty then
    p.record job ((a.parentHere?.bind (·.name)).getD "") node.label.span false 0
  else if a.isLiteralMethodName then .ok p
  else p.record job (job.source.textOf node.label) node.label.span a.isDeclaring 0

/-- Do what the kind of a node asks for. -/
def handle (p : Pass) (node : Tree) : Except Stop Pass :=
  match node.label.kind with
  | .identifier => p.enterIdentifier job node
  | .memberAccess => p.enterMemberAccess job node
  | .objectLiteral => p.enterObjectLiteral job
  | .method => p.enterMethod job node
  | _ => .ok p

/-- Enter a node.  Nodes that are not named leave no trace. -/
def enter (p : Pass) (node : Tree) : Except Stop Pass :=
  let l := node.label
  if l.named then
    let frame : Frame := { kind := l.kind, field := l.field, children := node.children }
    let p := { p with ancestry := p.ancestry.push frame }
    let p := if job.opens l then p.openScope l else p
    p.handle job node
  else .ok p

/-- Take a name off the context of the innermost scope. -/
def dropContext (p : Pass) : Except Stop Pass := do
  let i ← p.check job p.stack.innermost
  if (p.stack.scopeAt i).context.isEmpty then p.fail (.underflow .pop)
  else return { p with stack := p.stack.modify i fun s => { s with context := s.context.dropLast } }

/-- Close the scope of a node. -/
def closeScope (p : Pass) (l : Label) : Except Stop Pass := do
  let (_, stack) ← p.checkRun job (ScopeStack.pop l.id l.type)
  return { p with stack }

/-- Leave a node. -/
def leave (p : Pass) (node : Tree) : Except Stop Pass :=
  let l := node.label
  if l.named then
    match p.ancestry.pop with
    | .error e => p.fail (.underflow e)
    | .ok (frame, ancestry) => do
        let p := { p with ancestry }
        let p ← if frame.pushed then p.dropContext job else .ok p
        if job.closes l then p.closeScope job l else return p
  else .ok p

/-- One visit. -/
def step (p : Pass) : Visit → Except Stop Pass
  | .enter node => p.enter job node
  | .leave node => p.leave job node

/-- The walk over a tree whose nodes are numbered; all scopes must be closed at its end. -/
def walk (tree : Tree) : Except Stop Pass := do
  let p ← (Cursor.visits tree).foldlM (step job) {}
  if p.stack.depth = 0 then return p
  else p.fail (.ofCause job.path (.scope (.leftOpen p.stack.depth)))

/-- The walk over a tree, after numbering its nodes. -/
def run (tree : Tree) : Except Stop Pass := walk job tree.numbered

/-- The finished scopes, in the order of opening. -/
def scopes (p : Pass) : List IndexedScope := p.stack.scopes.map Scope.freeze

end Pass
end ScopeIndex
