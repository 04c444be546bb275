import Mathlib
import ScopeIndex.Proofs.Outermost

/-!
# Nested object literals

What the parts of a tree record, given what stands above them.  A binding whose value is
made of object literals in one another records its name and then the keys, each nested in
the names around it.

## Main definitions

* `Forest.parts` — the trees of a row, without the tokens between them.
* `Tree.Silent`, `Tree.IsName`, `Tree.IsQuoted` — trees that record nothing, that are a
  name, and that are a name in quotes.
* `Member` — a name with the ranges of its declaration and of its use.
* `Tree.Nests`, `Tree.Binds` — nested object literals, and a binding of them.

## Main results

* `Job.postings_nests`, `Job.postings_binds` — what they record.
-/

namespace ScopeIndex

/-! ### Rows and their parts -/

/-- The trees of a row, without the tokens between them: nodes that have neither a name
nor children. -/
def Forest.parts (f : Forest) : List Tree :=
  f.roots.filter fun t => t.label.named || t.children ≠ .nil

/-- The sites of a row are those of its parts. -/
theorem Forest.sites_eq_flatMap (f : Forest) (above : List Tree) :
    f.sites above = f.parts.flatMap fun t => t.toForest.sites above := by
  induction f with
  | nil => rfl
  | cons l kids rest _ ihr =>
    rw [sites_cons, ihr, parts, parts, roots, List.filter_cons]
    split
    · rfl
    · next h =>
      obtain ⟨hn, rfl⟩ : l.named = false ∧ kids = .nil := by simpa using h
      rw [sites_cons_of_anonymous hn]
      rfl

theorem Forest.field_of_child? {f : Forest} {field : String} {t : Tree}
    (h : f.child? field = some t) : t.label.field = some field := by
  rw [child?_eq_find?] at h
  simpa using List.find?_some h

theorem Label.kind_of_type {l : Label} {type : String} {k : Kind} (hn : l.named = true)
    (ht : l.type = type) (hk : Kind.ofType type = k) : l.kind = k := by
  rw [Label.kind, if_pos hn, ht, hk]

theorem Label.named_of_kind {l : Label} {k : Kind} (hk : l.kind = k) (h : k ≠ .other) :
    l.named = true := by
  by_contra hn
  exact h (hk ▸ by simp [Label.kind, hn])

/-- Sites of a row with more nodes above it. -/
theorem Forest.sites_append (f : Forest) (up : List Tree) : ∀ above : List Tree,
    f.sites (above ++ up) = (f.sites above).map fun s => ⟨s.node, s.above ++ up⟩ := by
  induction f with
  | nil => intro above; rfl
  | cons l kids rest ihk ihr =>
    intro above
    cases hn : l.named with
    | true =>
      rw [sites_cons_of_named hn, sites_cons_of_named hn, ← List.cons_append, ihk, ihr,
        List.map_append, List.map_cons]
    | false =>
      rw [sites_cons_of_anonymous hn, sites_cons_of_anonymous hn, ihk, ihr, List.map_append]

namespace Job

/-- What the sites of a tree record. -/
def postings (job : Job) (above : List Tree) (t : Tree) : List Posting :=
  (t.toForest.sites above).filterMap job.posting?

variable {job : Job} {t : Tree} {above : List Tree} {k : Kind}

/-- What a tree records is what its root records and what its parts record. -/
theorem postings_eq (hn : t.label.named = true) {parts : List Tree}
    (h : t.children.parts = parts) :
    job.postings above t =
      (job.posting? ⟨t, above⟩).toList ++ parts.flatMap (job.postings (t :: above)) := by
  rw [postings, Tree.toForest, Forest.sites_cons_of_named hn, Forest.sites, List.append_nil,
    Forest.sites_eq_flatMap, h, List.filterMap_cons, List.filterMap_flatMap]
  cases job.posting? ⟨t, above⟩ <;> rfl

/-- Only accesses, methods and identifiers record something. -/
theorem posting?_eq_none (hk : t.label.kind = k) (h : k ∉ [.memberAccess, .method, .identifier]) :
    job.posting? ⟨t, above⟩ = none := by
  have hsaying : job.saying? ⟨t, above⟩ = none := by
    have hkind : Site.kind ⟨t, above⟩ = k := hk
    unfold saying?
    rw [hkind]
    cases k <;> first | rfl | simp at h
  rw [posting?, hsaying]
  rfl

/-- Other nodes leave it to their parts. -/
theorem postings_of_parts (hn : t.label.named = true) (hk : t.label.kind = k)
    (h : k ∉ [.memberAccess, .method, .identifier]) {parts : List Tree}
    (hparts : t.children.parts = parts) :
    job.postings above t = parts.flatMap (job.postings (t :: above)) := by
  rw [postings_eq hn hparts, posting?_eq_none hk h]
  rfl

theorem literalNames_cons (hk : t.label.kind = k) (h : k ≠ .objectLiteral) :
    job.literalNames (t :: above) = job.literalNames above := by
  rw [literalNames, job.literalName?_of_kind_ne (s := ⟨t, above⟩) (hk.trans_ne h)]
  exact List.append_nil _

theorem countP_opens_cons (h : job.opens t.label = false) :
    ((t :: above).countP fun t => job.opens t.label) = above.countP fun t => job.opens t.label := by
  rw [List.countP_cons, h]
  rfl

/-- What a node records that neither opens a scope nor gives a name. -/
theorem posting?_of_saying? {y : Saying} (hk : t.label.kind = k) (h : k ≠ .objectLiteral)
    (ho : job.opens t.label = false) (hy : job.saying? ⟨t, above⟩ = some y) :
    job.posting? ⟨t, above⟩ = some ⟨above.countP fun t => job.opens t.label,
      SymbolPath.join (job.literalNames above) y.name, y.span⟩ := by
  have hlineage : Site.lineage ⟨t, above⟩ = t :: above := rfl
  rw [posting?, hy, Option.map_some, hlineage, countP_opens_cons ho, literalNames_cons hk h]

end Job

/-! ### Trees that record nothing -/

/-- The tree records nothing. -/
def Tree.Silent (t : Tree) : Prop := ∀ s ∈ t.sites, s.recorded? = none

namespace Site

/-- A site does not see through a parent of another kind. -/
theorem isIn_append {node p : Tree} {above up : List Tree} {kind : Kind}
    (h : p.label.kind ≠ kind) :
    isIn ⟨node, above ++ p :: up⟩ kind = isIn ⟨node, above⟩ kind := by
  cases above with
  | nil => simpa [isIn, parent?, Site.kind] using h
  | cons q above => rfl

/-- What stands below a node that is neither an object literal nor a method records what
it records by itself. -/
theorem recorded?_append {node p : Tree} {above up : List Tree}
    (hliteral : p.label.kind ≠ .objectLiteral) (hmethod : p.label.kind ≠ .method) :
    recorded? ⟨node, above ++ p :: up⟩ = recorded? ⟨node, above⟩ := by
  have hname : isMethodName ⟨node, above ++ p :: up⟩ = isMethodName ⟨node, above⟩ := by
    rw [isMethodName, isMethodName, isPart, isPart, isIn_append hmethod]
    cases above with
    | nil => simp [isIn, parent?]
    | cons q above =>
      congr 1
      exact isIn_append hliteral
  unfold recorded?
  rw [hname, isIn_append hliteral]
  rfl

end Site

theorem Job.posting?_eq_none_of_recorded? {job : Job} {s : Site} (h : s.recorded? = none) :
    job.posting? s = none := by
  rw [← s.mention?_span job, Option.map_eq_none_iff, mention?_eq_map_saying?,
    Option.map_eq_none_iff] at h
  rw [posting?, h]
  rfl

/-- A silent tree stays silent below a node that is neither an object literal nor a
method. -/
theorem Tree.Silent.postings_eq_nil {t p : Tree} {up : List Tree} (h : t.Silent) (job : Job)
    (hliteral : p.label.kind ≠ .objectLiteral) (hmethod : p.label.kind ≠ .method) :
    job.postings (p :: up) t = [] := by
  rw [Job.postings, List.filterMap_eq_nil_iff]
  intro s hs
  rw [← List.nil_append (p :: up), Forest.sites_append] at hs
  obtain ⟨r, hr, rfl⟩ := List.mem_map.mp hs
  apply Job.posting?_eq_none_of_recorded?
  rw [Site.recorded?_append hliteral hmethod]
  exact h r hr

/-! ### Names -/

/-- A name with the ranges of its declaration and of its use. -/
structure Member where
  /-- The name. -/
  name : String
  /-- Where it is declared. -/
  declared : Span
  /-- Where it is used. -/
  used : Span
  deriving DecidableEq, Repr

/-- The tree is an identifier with a name and a range. -/
structure Tree.IsName (source : Source) (name : String) (span : Span) (t : Tree) : Prop where
  kind : t.label.kind = .identifier
  leaf : t.children = .nil
  text : source.textOf t.label = name
  span_eq : t.label.span = span

/-- The tree is a quoted string whose text is a name between two quotes. -/
structure Tree.IsQuoted (source : Source) (name : String) (span : Span) (t : Tree) : Prop where
  named : t.label.named = true
  type : t.label.type = "string"
  inner : ∀ l ∈ t.children.preorder, l.kind = .other
  text : ∃ q r, (source.textOf t.label).toList = q :: name.toList ++ [r]
  span_eq : t.label.span = span

namespace Tree

variable {source : Source} {marker name : String} {span : Span} {t : Tree}

theorem IsName.path_resolve (h : t.IsName source name span) :
    (Name.resolve source marker t).path = name := by
  rw [Name.resolve, Name.ofParts, h.kind]
  exact h.text

theorem IsQuoted.kind (h : t.IsQuoted source name span) : t.label.kind = .literal :=
  Label.kind_of_type h.named h.type (by decide)

theorem IsQuoted.path_resolve (h : t.IsQuoted source name span) :
    (Name.resolve source marker t).path = name := by
  obtain ⟨q, r, htext⟩ := h.text
  rw [Name.resolve, Name.ofParts, h.kind]
  have hlong : 2 ≤ (q :: (name.toList ++ [r])).length := by simp
  simp only [Name.literalValue, htext, h.type, true_and, if_pos hlong, List.cons_append,
    List.drop_succ_cons, List.drop_zero, List.dropLast_concat, String.ofList_toList]

end Tree

namespace Job

variable {job : Job} {t : Tree} {above : List Tree} {name : String} {span : Span}

/-- An identifier records what it says. -/
theorem postings_of_isName (h : t.IsName job.source name span) (ho : job.opens t.label = false)
    {y : Saying} (hy : job.saying? ⟨t, above⟩ = some y) :
    job.postings above t = [⟨above.countP fun t => job.opens t.label,
      SymbolPath.join (job.literalNames above) y.name, y.span⟩] := by
  have hparts : t.children.parts = [] := by rw [h.leaf]; rfl
  rw [postings_eq (Label.named_of_kind h.kind (by decide)) hparts,
    posting?_of_saying? h.kind (by decide) ho hy]
  rfl

/-- An identifier that is neither a property nor the name of a method records its name. -/
theorem postings_name (h : t.IsName job.source name span) (ho : job.opens t.label = false)
    (hproperty : Site.isPart ⟨t, above⟩ "property" .memberAccess = false)
    (hmethod : Site.isMethodName ⟨t, above⟩ = false) :
    job.postings above t = [⟨above.countP fun t => job.opens t.label,
      SymbolPath.join (job.literalNames above) name, span⟩] := by
  have hsaying : job.saying? ⟨t, above⟩ =
      some ⟨name, span, Site.declares ⟨t, above⟩, false⟩ := by
    simp [saying?, Site.kind, h.kind, hproperty, hmethod, h.text, h.span_eq]
  exact postings_of_isName h ho hsaying

/-- A quoted string by itself records nothing. -/
theorem postings_quoted (h : t.IsQuoted job.source name span) : job.postings above t = [] := by
  rw [postings, List.filterMap_eq_nil_iff]
  intro s hs
  -- the string is a literal, and all below it has no part in naming
  have hkind : s.node.label.kind = .literal ∨ s.node.label.kind = .other := by
    have hmem := (Forest.sites_sublist t.toForest above).subset (List.mem_map_of_mem hs)
    rw [Tree.toForest, Forest.preorder, List.cons_append, List.mem_cons, Forest.preorder,
      List.append_nil] at hmem
    rcases hmem with heq | hmem
    · exact .inl (heq ▸ h.kind)
    · exact .inr (h.inner _ hmem)
  obtain ⟨node, up⟩ := s
  exact hkind.elim (fun h => posting?_eq_none h (by decide)) fun h => posting?_eq_none h (by decide)

end Job

/-! ### Nested literals -/

/-- The tree is made of object literals in one another, with one key for each member, and
a value that records nothing. -/
inductive Tree.Nests (source : Source) (range : Member → Span) : List Member → Tree → Prop where
  /-- The value. -/
  | value {t : Tree} : t.Silent → Nests source range [] t
  /-- A literal with one property. -/
  | literal {m : Member} {ms : List Member} {t pair key value : Tree} :
      t.label.kind = .objectLiteral → t.children.parts = [pair] → pair.label.kind = .property →
      pair.children.parts = [key, value] → pair.child? "key" = some key →
      key.IsName source m.name (range m) → value.label.field = some "value" →
      Nests source range ms value → Nests source range (m :: ms) t

/-- The tree binds a member to nested literals with the other members for keys. -/
inductive Tree.Binds (source : Source) (range : Member → Span) : List Member → Tree → Prop where
  | mk {m : Member} {ms : List Member} {t name value : Tree} :
      t.label.kind = .variableBinding → t.children.parts = [name, value] →
      t.child? "name" = some name → name.IsName source m.name (range m) →
      value.label.field = some "value" → value.Nests source range ms →
      Binds source range (m :: ms) t

/-- The members, each with its path when it is nested in the ones before it. -/
def Member.nested (context : List String) : List Member → List (String × Member)
  | [] => []
  | m :: ms => (SymbolPath.join context m.name, m) :: nested (context ++ [m.name]) ms

/-- The occurrences of members at a depth. -/
def Member.posted (depth : Nat) (range : Member → Span) (ms : List (String × Member)) :
    List Posting :=
  ms.map fun e => ⟨depth, e.1, range e.2⟩

namespace Job

variable {job : Job}

/-- The value of a property is named after the key. -/
theorem literalName?_value {pair key value : Tree} {up : List Tree} {name : String} {span : Span}
    (hpair : pair.label.kind = .property) (hkey : pair.child? "key" = some key)
    (hname : key.IsName job.source name span) (hfield : value.label.field = some "value")
    (hk : value.label.kind = .objectLiteral) :
    job.literalName? ⟨value, pair :: up⟩ = some name := by
  have hinitial : Site.isInitial ⟨value, pair :: up⟩ = false := by
    simp [Site.isInitial, Site.isPart, Site.isIn, Site.parent?, Site.kind, hpair]
  have hpart : Site.isPart ⟨value, pair :: up⟩ "value" .property = true := by
    simp [Site.isPart, Site.isIn, Site.parent?, Site.kind, hpair, hfield]
  have hpath : (Name.ofKey? job.source job.marker (some key)).path = name := by
    rw [Name.ofKey?, Option.map_some, Option.getD_some, Name.ofKey, hname.kind]
    exact hname.path_resolve
  simp [literalName?, Site.kind, hk, hinitial, hpart, Site.parent?, hkey, hpath]

/-- The value of a binding is named after the binding. -/
theorem literalName?_initial {binding name value : Tree} {up : List Tree} {x : String}
    {span : Span} (hbinding : binding.label.kind = .variableBinding)
    (hchild : binding.child? "name" = some name) (hname : name.IsName job.source x span)
    (hfield : value.label.field = some "value") (hk : value.label.kind = .objectLiteral) :
    job.literalName? ⟨value, binding :: up⟩ = some x := by
  have hinitial : Site.isInitial ⟨value, binding :: up⟩ = true := by
    simp [Site.isInitial, Site.isPart, Site.isIn, Site.parent?, Site.kind, hbinding, hfield]
  simp [literalName?, Site.kind, hk, hinitial, Site.parent?, hchild, hname.kind, hname.text]

variable (hplain : ∀ {l : Label} {k : Kind}, l.kind = k → k ∉ [.other, .method] →
    job.opens l = false) {range : Member → Span}
include hplain

/-- **What nested literals record**: each key under the path of the keys around it. -/
theorem postings_nests {ms : List Member} {t : Tree} (h : t.Nests job.source range ms) :
    ∀ {p : Tree} {up : List Tree} {name : String} {k : Kind}, p.label.kind = k →
    k ∉ [.objectLiteral, .method] →
    (t.label.kind = .objectLiteral → job.literalName? ⟨t, p :: up⟩ = some name) →
    job.postings (p :: up) t = Member.posted ((p :: up).countP fun t => job.opens t.label) range
      (Member.nested (job.literalNames (p :: up) ++ [name]) ms) := by
  induction h with
  | value hsilent =>
    intro p up name k hp hk _
    rw [← hp, List.mem_cons, List.mem_singleton, not_or] at hk
    exact hsilent.postings_eq_nil job hk.1 hk.2
  | @literal m ms t pair key value hk hparts hpair hpairs hkey hname hfield _ ih =>
    intro p up name k _ _ hcontext
    -- the key is nested in the names around the literal and in that of the literal
    have hnames : job.literalNames (pair :: t :: p :: up) =
        job.literalNames (p :: up) ++ [name] := by
      rw [literalNames_cons hpair (by decide), literalNames, hcontext hk]
      rfl
    have hdepth : ((pair :: t :: p :: up).countP fun t => job.opens t.label) =
        (p :: up).countP fun t => job.opens t.label := by
      rw [countP_opens_cons (hplain hpair (by decide)), countP_opens_cons (hplain hk (by decide))]
    have hkeyfield : key.label.field = some "key" := Forest.field_of_child? hkey
    have hfirst : job.postings (pair :: t :: p :: up) key = [⟨(p :: up).countP fun t =>
        job.opens t.label, SymbolPath.join (job.literalNames (p :: up) ++ [name]) m.name,
          range m⟩] := by
      rw [postings_name hname (hplain hname.kind (by decide)) (by simp [Site.isPart, hkeyfield])
        (by simp [Site.isMethodName, Site.isPart, hkeyfield]), hnames, hdepth]
    have hrest : job.postings (pair :: t :: p :: up) value = _ :=
      ih hpair (by decide) (literalName?_value hpair hkey hname hfield)
    rw [hnames, hdepth] at hrest
    rw [postings_of_parts (Label.named_of_kind hk (by decide)) hk (by decide) hparts,
      List.flatMap_singleton,
      postings_of_parts (Label.named_of_kind hpair (by decide)) hpair (by decide) hpairs,
      List.flatMap_cons, List.flatMap_singleton, hfirst, hrest]
    rfl

/-- What a binding of nested literals records. -/
theorem postings_binds {ms : List Member} {t : Tree} (h : t.Binds job.source range ms)
    {above : List Tree} (hnames : job.literalNames above = []) :
    job.postings above t = Member.posted (above.countP fun t => job.opens t.label) range
      (Member.nested [] ms) := by
  obtain ⟨hk, hparts, hchild, hname, hfield, hnests⟩ := h
  rename_i m ms name value
  have hnames' : job.literalNames (t :: above) = [] := by
    rw [literalNames_cons hk (by decide), hnames]
  have hdepth : ((t :: above).countP fun t => job.opens t.label) =
      above.countP fun t => job.opens t.label := countP_opens_cons (hplain hk (by decide))
  have hnamefield : name.label.field = some "name" := Forest.field_of_child? hchild
  have hmethod : Site.isMethodName ⟨name, t :: above⟩ = false := by
    simp [Site.isMethodName, Site.isPart, Site.isIn, Site.parent?, Site.kind, hk]
  have hfirst : job.postings (t :: above) name = [⟨above.countP fun t => job.opens t.label,
      m.name, range m⟩] := by
    rw [postings_name hname (hplain hname.kind (by decide)) (by simp [Site.isPart, hnamefield])
      hmethod, hnames', hdepth]
    rfl
  have hrest : job.postings (t :: above) value = _ :=
    postings_nests hplain hnests hk (by decide) (literalName?_initial hk hchild hname hfield)
  rw [hnames', hdepth] at hrest
  rw [postings_of_parts (Label.named_of_kind hk (by decide)) hk (by decide) hparts,
    List.flatMap_cons, List.flatMap_singleton, hfirst, hrest]
  rfl

end Job

end ScopeIndex
