import Mathlib
import ScopeIndex.Index.Document

/-!
# The index read off ancestors

What the index of a tree holds, said without a walk.  A *site* is a named node with the
list of its named ancestors.  Whether a site records an occurrence, under which path, in
view of which scopes, all that depends on the site alone; only the choice among those
scopes depends on the occurrences that come before it in pre-order.

## Main definitions

* `Site`, `Forest.sites` — the named nodes of a row, each with its named ancestors.
* `Job.scopeIds` — the scope nodes among a node and its ancestors.
* `Job.contextOf` — the names of the object literals that are read in a scope.
* `Job.mention?` — what a site records.
* `Mention.place`, `Job.tables` — the tables that a list of sites fills.
* `Job.reading` — the scopes of a tree.
-/

namespace ScopeIndex

/-- A named node with its named ancestors. -/
structure Site where
  /-- The node. -/
  node : Tree
  /-- Its named ancestors, parent first. -/
  above : List Tree
  deriving DecidableEq, Repr

/-- The named nodes of a row in pre-order, when `above` are the named ancestors of the
row. -/
def Forest.sites (above : List Tree) : Forest → List Site
  | .nil => []
  | .cons l kids rest =>
      if l.named then
        ⟨⟨l, kids⟩, above⟩ :: kids.sites (⟨l, kids⟩ :: above) ++ rest.sites above
      else kids.sites above ++ rest.sites above

theorem Forest.sites_cons_of_named {l : Label} (hn : l.named = true) (kids rest : Forest)
    (above : List Tree) :
    (Forest.cons l kids rest).sites above =
      ⟨⟨l, kids⟩, above⟩ :: kids.sites (⟨l, kids⟩ :: above) ++ rest.sites above := by
  simp [sites, hn]

theorem Forest.sites_cons_of_anonymous {l : Label} (hn : l.named = false) (kids rest : Forest)
    (above : List Tree) :
    (Forest.cons l kids rest).sites above = kids.sites above ++ rest.sites above := by
  simp [sites, hn]

theorem Forest.sites_cons (l : Label) (kids rest : Forest) (above : List Tree) :
    (Forest.cons l kids rest).sites above =
      (Forest.cons l kids .nil).sites above ++ rest.sites above := by
  cases hn : l.named with
  | true => simp [sites, hn]
  | false => simp [sites, hn]

/-- The named nodes of a tree in pre-order. -/
def Tree.sites (t : Tree) : List Site := t.toForest.sites []

namespace Site

/-- The node and its named ancestors. -/
def lineage (s : Site) : List Tree := s.node :: s.above

/-- The number of the node. -/
def id (s : Site) : Nat := s.node.label.id

/-- The kind of the node. -/
def kind (s : Site) : Kind := s.node.label.kind

/-- The parent with its ancestors. -/
def parent? (s : Site) : Option Site :=
  match s.above with
  | [] => none
  | t :: ts => some ⟨t, ts⟩

/-- Is the parent of a kind? -/
def isIn (s : Site) (kind : Kind) : Bool := s.parent?.any fun q => q.kind == kind

/-- Is the node kept under a field of a parent of a kind? -/
def isPart (s : Site) (field : String) (kind : Kind) : Bool :=
  s.node.label.field == some field && s.isIn kind

/-- A part has its whole for a parent. -/
theorem exists_parent_of_isPart {s : Site} {field : String} {kind : Kind}
    (h : s.isPart field kind = true) :
    ∃ q, s.parent? = some q ∧ q.kind = kind := by
  have hin := (Bool.and_eq_true_iff.mp h).2
  simpa [isIn, Option.any_eq_true] using hin

/-- Is the node the value of a binding? -/
def isInitial (s : Site) : Bool := s.isPart "value" .variableBinding

/-- Is the node the name of a method that stands in an object literal? -/
def isMethodName (s : Site) : Bool :=
  s.isPart "name" .method && s.parent?.any fun m => m.isIn .objectLiteral

/-- Does the node declare a name: that of a binding, or a key of the object literal that
a binding starts with? -/
def declares (s : Site) : Bool :=
  s.isPart "name" .variableBinding ||
    (s.isPart "key" .property &&
      s.parent?.any fun p => p.isIn .objectLiteral && p.parent?.any fun o => o.isInitial)

end Site

/-- An occurrence before it has a place. -/
structure Mention where
  /-- The scopes that may take it, innermost first, by the numbers of their nodes. -/
  scopes : List Nat
  /-- The path it stands for. -/
  path : String
  /-- Its bytes. -/
  span : Span
  /-- Must it go to the innermost of the scopes? -/
  declaring : Bool
  deriving DecidableEq, Repr

/-- The scope that takes a mention: the innermost, or the innermost that knows the path
if there is one and the mention does not declare. -/
def Mention.target? (m : Mention) (tables : Nat → SymbolTable) : Option Nat :=
  if m.declaring then m.scopes.head?
  else (m.scopes.find? fun i => (tables i).contains m.path).or m.scopes.head?

/-- The tables with one more mention. -/
def Mention.place (tables : Nat → SymbolTable) (m : Mention) : Nat → SymbolTable := fun i =>
  if m.target? tables = some i then (tables i).add m.path m.span else tables i

namespace Job

variable (job : Job)

/-- The scope nodes of a lineage, innermost first. -/
def scopeIds (lineage : List Tree) : List Nat :=
  (lineage.filter fun t => job.opens t.label).map (·.label.id)

/-- The name that an object literal gives to what stands in it: that of the binding it
is the value of, unless the binding takes a pattern apart, or that of the property it is
the value of. -/
def literalName? (s : Site) : Option String :=
  if s.kind = .objectLiteral then
    if s.isInitial then
      let name? := s.parent?.bind fun q => q.node.child? "name"
      (name?.filter fun n => n.label.kind = .identifier).map fun n => job.source.textOf n.label
    else if s.isPart "value" .property then
      let key? := s.parent?.bind fun q => q.node.child? "key"
      some (Name.ofKey? job.source job.marker key?).path
    else none
  else none

/-- The names of the object literals of a lineage whose innermost scope is the given
one, outermost first. -/
def contextOf (scope : Option Nat) : List Tree → List String
  | [] => []
  | t :: ts =>
      contextOf scope ts ++
        if (job.scopeIds (t :: ts)).head? = scope then (job.literalName? ⟨t, ts⟩).toList else []

/-- A mention of a name that stands at a site, in view of the given scopes. -/
def mentionAt (s : Site) (scopes : List Nat) (name : String) (span : Span) (declaring : Bool) :
    Mention where
  scopes := scopes
  path := SymbolPath.join (job.contextOf scopes.head? s.lineage) name
  span := span
  declaring := declaring

/-- What a site records, if anything.  A member access records its property if that is a
constant; a method in an object literal records its name, in view of the scopes around
it alone; an identifier records itself, unless it is the name of such a method. -/
def mention? (s : Site) : Option Mention :=
  match s.kind with
  | .memberAccess =>
      (s.node.property?.filter fun q => q.label.kind = .literal).map fun q =>
        job.mentionAt s (job.scopeIds s.lineage) (job.accessName s.node).path q.label.span false
  | .method =>
      if s.isIn .objectLiteral then
        (s.node.child? "name").map fun n =>
          job.mentionAt s (job.scopeIds s.above) (Name.ofKey job.source job.marker n).path
            n.label.span (s.parent?.any fun o => o.isInitial)
      else none
  | .identifier =>
      if s.isPart "property" .memberAccess then
        s.parent?.map fun m =>
          job.mentionAt s (job.scopeIds s.lineage) (job.accessName m.node).path
            s.node.label.span false
      else if s.isMethodName then none
      else
        some (job.mentionAt s (job.scopeIds s.lineage) (job.source.textOf s.node.label)
          s.node.label.span s.declares)
  | _ => none

/-- The mentions at a list of sites. -/
def mentions (sites : List Site) : List Mention := sites.filterMap job.mention?

/-- The sites that open a scope. -/
def scopeSites (sites : List Site) : List Site := sites.filter fun s => job.opens s.node.label

/-- The tables that a list of sites fills. -/
def tables (sites : List Site) : Nat → SymbolTable :=
  (job.mentions sites).foldl Mention.place fun _ => {}

/-- The scopes of a tree: one for each site that opens one, in pre-order. -/
def reading (tree : Tree) : List IndexedScope :=
  let sites := tree.numbered.sites
  (job.scopeSites sites).map fun s =>
    { type := s.node.label.type
      span := s.node.label.span
      depth := (job.scopeIds s.above).length
      symbols := (job.tables sites s.id).entries }

/-- The scope of a site, with its table. -/
def scopeAt (tables : Nat → SymbolTable) (s : Site) : IndexedScope where
  type := s.node.label.type
  span := s.node.label.span
  depth := (job.scopeIds s.above).length
  symbols := (tables s.id).entries

theorem reading_eq_map (tree : Tree) :
    job.reading tree =
      (job.scopeSites tree.numbered.sites).map (job.scopeAt (job.tables tree.numbered.sites)) :=
  rfl

end Job
end ScopeIndex
