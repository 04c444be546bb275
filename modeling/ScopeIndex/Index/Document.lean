import ScopeIndex.Boundary
import ScopeIndex.Digest.Sha256
import ScopeIndex.Index.Pass
import ScopeIndex.Tree.Fault

/-!
# Indexing a source

From a source and the tree that a parser made of it to the finished index.  A source with a syntax error
is refused, or indexed with a warning when errors are tolerated.  A result carries the events of the work
and the notices of completion that were given, also when the work failed.

## Main definitions

* `Outcome` — a result or a failure, with events and notices.
* `Document` — a source with its tree.
* `Document.parse` — the check for syntax errors.
* `Job.indexTree` — the index of a tree by any decision on scopes.
* `Document.indexTree`, `Document.index`, `Document.indexFile` — the index of a tree, of a source, and of
  a file, which may not be empty.
* `Content`, `Content.indexFile` — what there is to be had of a file, and its index.

## References

The functions `parse_source`, `index_tree`, `index_source` and `index_file` of jsindex.
-/

namespace ScopeIndex

/-- A result or a failure, with what was reported on the way. -/
structure Outcome (α : Type) where
  /-- The result. -/
  result : Except Failure α
  /-- The events, oldest first. -/
  journal : List Event := []
  /-- The scopes that were handed over as complete, once per notice. -/
  completions : List (List IndexedScope) := []

/-- How sources are indexed. -/
structure IndexRules where
  /-- Are sources with syntax errors indexed? -/
  tolerant : Bool
  /-- What stands for a fragment without a name. -/
  marker : String
  /-- Which nodes open and close scopes. -/
  boundary : Boundary

/-- A source with the tree that a parser made of it, if it made one. -/
structure Document where
  /-- The source. -/
  source : Source
  /-- The tree. -/
  tree : Option Tree

namespace Outcome

variable {α : Type}

/-- A failure without events. -/
def failed (failure : Failure) : Outcome α := { result := .error failure }

/-- Put events in front. -/
def after (events : List Event) (o : Outcome α) : Outcome α := { o with journal := events ++ o.journal }

end Outcome

/-- The pass over a tree before its first visit, if there is a tree and a boundary. -/
def Pass.start (path : String) (tree : Option Tree) (boundary : Option Boundary) :
    Except IndexingError Pass :=
  match tree, boundary with
  | none, _ => .error ⟨.noTree, some path⟩
  | some _, none => .error ⟨.noBoundary, some path⟩
  | some _, some _ => .ok {}

/-- The pass that follows the rules over a source. -/
def Job.ofRules (source : Source) (path : String) (rules : IndexRules) : Job where
  source := source
  path := path
  marker := rules.marker
  opens := rules.boundary.opens
  closes := rules.boundary.closes

/-- The scopes of a tree, with the events of walking it. -/
def Job.indexTree (job : Job) (tree : Tree) : Outcome (List IndexedScope) :=
  match Pass.run job tree with
  | .ok p => { result := .ok p.scopes, journal := p.journal.toList }
  | .error stop => { result := .error stop.failure, journal := stop.journal.toList }

namespace Document

/-- The tree of a document, with the events of parsing it.  A tree with an error is refused unless errors
are tolerated. -/
def parse (d : Document) (path : String) (tolerant : Bool) : Outcome Tree :=
  match d.tree with
  | none => .failed (.ofCause path .noTree)
  | some t =>
      if t.hasError then
        let line := d.source.lineOf t.faultLabel
        if tolerant then { result := .ok t, journal := [.faultySource line] }
        else .failed (.ofCause path (.unparsable line))
      else { result := .ok t }

/-- The scopes of a tree. -/
def indexTree (source : Source) (tree : Tree) (path : String) (rules : IndexRules) :
    Outcome (List IndexedScope) :=
  (Job.ofRules source path rules).indexTree tree

/-- The index of a source, with one notice of completion. -/
def index (d : Document) (path : String) (rules : IndexRules) : Outcome FileIndex :=
  let parsed := d.parse path rules.tolerant
  match parsed.result with
  | .error failure => { result := .error failure, journal := parsed.journal }
  | .ok tree =>
      let walked := indexTree d.source tree path rules
      match walked.result with
      | .error failure => { result := .error failure, journal := parsed.journal ++ walked.journal }
      | .ok scopes =>
          { result := .ok { path, digest := some (Sha256.hex d.source.bytes), scopes }
            journal := parsed.journal ++ walked.journal
              ++ [.indexed scopes.length (FileIndex.symbolCount scopes)]
            completions := [scopes] }

/-- The index of a file, which may not be empty. -/
def indexFile (d : Document) (path : String) (rules : IndexRules) : Outcome FileIndex :=
  if d.source.isEmpty then .failed (.ofCause path .nothingToIndex) else d.index path rules

end Document

/-- What there is to be had of a file. -/
inductive Content where
  /-- Its document. -/
  | readable (document : Document)
  /-- A fault of the system, and nothing else. -/
  | faulty (fault : SystemFault)

namespace Content

/-- The bytes of a file, or why they cannot be had. -/
def bytes : Content → Except SystemFault (List UInt8)
  | readable d => .ok d.source.bytes.data.toList
  | faulty fault => .error fault

/-- The index of a file that is opened by one path and reported under another. -/
def indexFile (content : Content) (file path : String) (rules : IndexRules) : Outcome FileIndex :=
  match content with
  | readable d => d.indexFile path rules
  | faulty fault => .failed (.system ⟨fault, file⟩)

end Content
end ScopeIndex
