import Mathlib
import ScopeIndex.Proofs.Additions
import ScopeIndex.Proofs.Nesting
import ScopeIndex.Settings.Basic

/-!
# Member chains find nested keys

A name can be given to a value in two ways: by nesting object literals in a binding, and
by a chain of member accesses.  The context of a nested key grows on the way down to it;
the path of a chain is put together from the innermost object outwards, and a subscript
is recorded before its object while a dotted property is recorded behind it.  Both come
to the same paths, at every depth and for every mixture of links.

## Main definitions

* `Tree.Chains` — a chain of member accesses.
* `Tree.DeclaresThenUses` — a program that binds nested literals and then follows them.

## Main results

* `Name.path_resolve_chains`, `Job.postings_chains` — the path of a chain, and what it
  records.
* `SymbolTable.entries_addAll_members` — the table that declarations and uses fill.
* `Document.indexTree_members` — **a chain finds what nesting declares.**
-/

namespace ScopeIndex

/-! ### Paths of nested names -/

namespace SymbolPath

open Separated

/-- One more name at the end of a dotted text. -/
theorem ofPieces_concat {ns : List String} (h : ns ≠ []) (n : String) :
    ofPieces '.' (ns ++ [n]) = ofPieces '.' ns ++ "." ++ n := by
  have hjoin : ∀ {ps : List (List Char)}, ps ≠ [] → ∀ p : List Char,
      Separated.join '.' (ps ++ [p]) = Separated.join '.' ps ++ '.' :: p := by
    intro ps hps p
    induction ps with
    | nil => exact absurd rfl hps
    | cons q qs ih =>
      cases qs with
      | nil => rfl
      | cons r rs =>
        rw [List.cons_append, List.cons_append, join_cons_cons, ← List.cons_append,
          ih (List.cons_ne_nil _ _), join_cons_cons]
        simp
  have hmap : ns.map String.toList ≠ [] := by simpa using h
  have hdot : String.ofList ['.'] = "." := rfl
  rw [ofPieces, ofPieces, List.map_append, List.map_singleton, hjoin hmap, List.append_cons,
    String.ofList_append, String.ofList_append, hdot, String.ofList_toList]

/-- A dotted text is at least as long as its first name. -/
theorem ofPieces_ne_empty {n : String} (h : n ≠ "") (ns : List String) :
    (ofPieces '.' (n :: ns)).isEmpty = false := by
  have hn : n.toList ≠ [] := by simpa using h
  have hjoin : Separated.join '.' ((n :: ns).map String.toList) ≠ [] := by
    cases ns with
    | nil => simpa using hn
    | cons m ns => simp [hn]
  rw [ofPieces]
  simpa using hjoin

/-- A name nested in a context is a dotted text, unless the context starts with the empty
name. -/
theorem join_eq_ofPieces {context : List String} (h : context.head? ≠ some "") (name : String) :
    join context name = ofPieces '.' (context ++ [name]) := by
  cases context with
  | nil =>
    rw [join_nil, ofPieces]
    simp
  | cons n ns =>
    have hn : n ≠ "" := fun heq => h (by rw [heq]; rfl)
    rw [join, ofPieces_concat (List.cons_ne_nil _ _)]
    simp [ofPieces_ne_empty hn ns]

end SymbolPath

namespace Member

theorem head?_ne_of_append {ns ns' : List String} {n : String} (h : (ns ++ ns').head? ≠ some n) :
    ns.head? ≠ some n := by
  cases ns with
  | nil => simp
  | cons m ns => exact h

theorem nested_concat (ms : List Member) (m : Member) : ∀ context : List String,
    nested context (ms ++ [m]) =
      nested context ms ++ [(SymbolPath.join (context ++ ms.map (·.name)) m.name, m)] := by
  induction ms with
  | nil => intro context; simp [nested]
  | cons n ms ih =>
    intro context
    rw [List.cons_append, nested, nested, ih, List.map_cons, List.append_assoc, List.cons_append]
    rfl

/-- Paths get longer as names are nested. -/
theorem length_lt_of_mem_nested (ms : List Member) : ∀ {context : List String},
    context ≠ [] → context.head? ≠ some "" → ∀ e ∈ nested context ms,
      (Separated.ofPieces '.' context).length < e.1.length := by
  induction ms with
  | nil => intro context _ _ e he; cases he
  | cons m ms ih =>
    intro context hne hhead e he
    have hlonger : (Separated.ofPieces '.' context).length <
        (Separated.ofPieces '.' (context ++ [m.name])).length := by
      have hdot : ".".length = 1 := rfl
      rw [SymbolPath.ofPieces_concat hne, String.length_append, String.length_append, hdot]
      omega
    rcases List.mem_cons.mp he with rfl | he
    · rw [SymbolPath.join_eq_ofPieces hhead]
      exact hlonger
    · have hhead' : (context ++ [m.name]).head? ≠ some "" := by
        rwa [List.head?_append_of_ne_nil _ hne]
      exact hlonger.trans (ih (by simp) hhead' e he)

/-- Nested names have different paths. -/
theorem nodup_nested (ms : List Member) : ∀ {context : List String},
    (context ++ ms.map (·.name)).head? ≠ some "" → ((nested context ms).map (·.1)).Nodup := by
  induction ms with
  | nil => intro context _; exact .nil
  | cons m ms ih =>
    intro context hhead
    have hsplit : context ++ (m :: ms).map (·.name) = (context ++ [m.name]) ++ ms.map (·.name) := by
      simp
    rw [hsplit] at hhead
    have hhead' := head?_ne_of_append hhead
    rw [nested, List.map_cons, List.nodup_cons]
    refine ⟨fun hmem => ?_, ih hhead⟩
    obtain ⟨e, he, heq⟩ := List.mem_map.mp hmem
    have hlt := length_lt_of_mem_nested ms (by simp) hhead' e he
    rw [heq, SymbolPath.join_eq_ofPieces (head?_ne_of_append hhead')] at hlt
    exact lt_irrefl _ hlt

/-- The path of a nested name is the dotted text of the names down to it. -/
theorem nested_eq_mapIdx (ms : List Member) : ∀ {context : List String},
    (context ++ ms.map (·.name)).head? ≠ some "" →
    nested context ms = ms.mapIdx fun i m =>
      (Separated.ofPieces '.' (context ++ (ms.take (i + 1)).map (·.name)), m) := by
  induction ms with
  | nil => intro context _; rfl
  | cons m ms ih =>
    intro context hhead
    have hsplit : context ++ (m :: ms).map (·.name) = (context ++ [m.name]) ++ ms.map (·.name) := by
      simp
    rw [nested, ih (hsplit ▸ hhead), List.mapIdx_cons,
      SymbolPath.join_eq_ofPieces (head?_ne_of_append hhead)]
    simp

end Member

/-! ### Chains -/

/-- The tree follows members from a name on.  Each link is a dotted property or a quoted
subscript. -/
inductive Tree.Chains (source : Source) (range : Member → Span) : List Member → Tree → Prop where
  /-- The name. -/
  | name {m : Member} {t : Tree} : t.IsName source m.name (range m) → Chains source range [m] t
  /-- A dotted property. -/
  | dotted {m : Member} {ms : List Member} {t object property : Tree} :
      t.label.named = true → t.label.type = "member_expression" →
      t.children.parts = [object, property] → t.child? "object" = some object →
      t.child? "property" = some property → property.IsName source m.name (range m) →
      Chains source range ms object → Chains source range (ms ++ [m]) t
  /-- A quoted subscript. -/
  | subscript {m : Member} {ms : List Member} {t object index : Tree} :
      t.label.named = true → t.label.type = "subscript_expression" →
      t.children.parts = [object, index] → t.child? "object" = some object →
      t.child? "index" = some index → index.IsQuoted source m.name (range m) →
      Chains source range ms object → Chains source range (ms ++ [m]) t

namespace Tree

variable {source : Source} {range : Member → Span} {ms : List Member} {t : Tree}

theorem property?_of_dotted (ht : t.label.type = "member_expression") :
    t.property? = t.child? "property" := by
  simp [property?, Label.propertyField, Label.isSubscript, ht]

theorem property?_of_subscript (ht : t.label.type = "subscript_expression") :
    t.property? = t.child? "index" := by
  simp [property?, Label.propertyField, Label.isSubscript, ht]

theorem Chains.ne_nil (h : t.Chains source range ms) : ms ≠ [] := by
  cases h <;> simp

/-- A longer chain starts with the same name. -/
theorem Chains.head?_of_concat {m : Member} (h : t.Chains source range ms)
    (hhead : ((ms ++ [m]).map (·.name)).head? ≠ some "") :
    (ms.map (·.name)).head? ≠ some "" := by
  rwa [List.map_append, List.head?_append_of_ne_nil _ (by simpa using h.ne_nil)] at hhead

end Tree

namespace Name

variable {source : Source} {marker : String}

theorem ofField_eq_map (field : String) (f : Forest) :
    ofField source marker field f = (f.child? field).map (resolve source marker) := by
  induction f with
  | nil => rfl
  | cons l kids rest _ ihr =>
    rw [ofField, Forest.child?]
    split
    · rfl
    · exact ihr

/-- The path of an access to a property that has a name. -/
theorem path_resolve_access {t object property : Tree} (hk : t.label.kind = .memberAccess)
    (hobject : t.child? "object" = some object) (hproperty : t.property? = some property)
    (hconstant : t.label.isSubscript = true → property.label.kind = .literal) :
    (resolve source marker t).path =
      (resolve source marker object).path ++ "." ++ (resolve source marker property).path := by
  have hobject' : ofField source marker "object" t.children =
      some (resolve source marker object) := by
    rw [ofField_eq_map]
    exact congrArg (Option.map _) hobject
  have hproperty' : ofField source marker t.label.propertyField t.children =
      some (resolve source marker property) := by
    rw [ofField_eq_map]
    exact congrArg (Option.map _) hproperty
  have hnamed : ¬ (t.label.isSubscript = true ∧ property.label.kind ≠ .literal) :=
    fun h => h.2 (hconstant h.1)
  rw [resolve, hobject', hproperty', hproperty, ofParts, hk]
  simp only [Option.map_some, Option.getD_some, if_neg hnamed, dot]

/-- **The path of a chain** is the dotted text of its names. -/
theorem path_resolve_chains {range : Member → Span} {ms : List Member} {t : Tree}
    (h : t.Chains source range ms) :
    (resolve source marker t).path = Separated.ofPieces '.' (ms.map (·.name)) := by
  induction h with
  | name hname =>
    rw [hname.path_resolve]
    simp [Separated.ofPieces]
  | @dotted m ms t object property hn ht _ hobject hproperty hname hchain ih =>
    have hnot : t.label.isSubscript = true → property.label.kind = .literal := by
      simp [Label.isSubscript, ht]
    rw [path_resolve_access (Label.kind_of_type hn ht (by decide)) hobject
      ((Tree.property?_of_dotted ht).trans hproperty) hnot, ih, hname.path_resolve, List.map_append,
      List.map_singleton, SymbolPath.ofPieces_concat (by simpa using hchain.ne_nil)]
  | @subscript m ms t object index hn ht _ hobject hindex hquoted hchain ih =>
    rw [path_resolve_access (Label.kind_of_type hn ht (by decide)) hobject
      ((Tree.property?_of_subscript ht).trans hindex) (fun _ => hquoted.kind), ih,
      hquoted.path_resolve, List.map_append, List.map_singleton,
      SymbolPath.ofPieces_concat (by simpa using hchain.ne_nil)]

end Name

namespace Job

variable {job : Job} {t : Tree} {above : List Tree} {span : Span}

/-- A dotted property records the path of its access. -/
theorem postings_property {access : Tree} {name : String} (h : t.IsName job.source name span)
    (ho : job.opens t.label = false) (hk : access.label.kind = .memberAccess)
    (hfield : t.label.field = some "property") (hnames : job.literalNames (access :: above) = []) :
    job.postings (access :: above) t = [⟨(access :: above).countP fun t => job.opens t.label,
      (job.accessName access).path, span⟩] := by
  have hproperty : Site.isPart ⟨t, access :: above⟩ "property" .memberAccess = true := by
    simp [Site.isPart, Site.isIn, Site.parent?, Site.kind, hk, hfield]
  have hsaying : job.saying? ⟨t, access :: above⟩ =
      some ⟨(job.accessName access).path, span, false, false⟩ := by
    simp [saying?, Site.kind, h.kind, hproperty, Site.parent?, h.span_eq]
  rw [postings_of_isName h ho hsaying, hnames, SymbolPath.join_nil]

/-- An access with a quoted subscript records its path before all its parts. -/
theorem posting?_subscript {index : Tree} {name : String} (hk : t.label.kind = .memberAccess)
    (ho : job.opens t.label = false) (hproperty : t.property? = some index)
    (hquoted : index.IsQuoted job.source name span) (hnames : job.literalNames above = []) :
    job.posting? ⟨t, above⟩ =
      some ⟨above.countP fun t => job.opens t.label, (job.accessName t).path, span⟩ := by
  have hsaying : job.saying? ⟨t, above⟩ = some ⟨(job.accessName t).path, span, false, false⟩ := by
    simp [saying?, Site.kind, hk, hproperty, hquoted.kind, hquoted.span_eq]
  rw [posting?_of_saying? hk (by decide) ho hsaying, hnames, SymbolPath.join_nil]

/-- An access with a dotted property leaves it to its parts. -/
theorem posting?_dotted {property : Tree} {name : String} (hk : t.label.kind = .memberAccess)
    (hproperty : t.property? = some property) (hname : property.IsName job.source name span) :
    job.posting? ⟨t, above⟩ = none := by
  simp [posting?, saying?, Site.kind, hk, hproperty, hname.kind]

/-- The last member of a chain has the path of the chain. -/
theorem posted_nested_concat {range : Member → Span} {ms : List Member} {m : Member}
    (h : t.Chains job.source range (ms ++ [m])) (hhead : (ms.map (·.name)).head? ≠ some "")
    (depth : Nat) :
    Member.posted depth range (Member.nested [] (ms ++ [m])) =
      Member.posted depth range (Member.nested [] ms) ++
        [⟨depth, (job.accessName t).path, range m⟩] := by
  have hpath : SymbolPath.join (ms.map (·.name)) m.name = (job.accessName t).path := by
    rw [SymbolPath.join_eq_ofPieces hhead, accessName, Name.path_resolve_chains h, List.map_append]
    rfl
  rw [Member.nested_concat, List.nil_append, hpath, Member.posted, List.map_append]
  rfl

/-- Wherever the tree stands outside of literals, unless it is a property or the name of a
method, it records the paths of the members, in some order. -/
def PostsMembers (job : Job) (range : Member → Span) (ms : List Member) (t : Tree) : Prop :=
  ∀ above : List Tree, job.literalNames above = [] →
    Site.isPart ⟨t, above⟩ "property" .memberAccess = false →
    Site.isMethodName ⟨t, above⟩ = false →
    (job.postings above t).Perm (Member.posted (above.countP fun t => job.opens t.label) range
      (Member.nested [] ms))

variable (hplain : ∀ {l : Label} {k : Kind}, l.kind = k → k ∉ [.other, .method] →
    job.opens l = false) {range : Member → Span} {ms : List Member}
include hplain

/-- What the object of an access records. -/
theorem PostsMembers.object {object : Tree} (h : job.PostsMembers range ms object)
    (hk : t.label.kind = .memberAccess) (hobject : t.child? "object" = some object)
    (hnames : job.literalNames (t :: above) = []) :
    (job.postings (t :: above) object).Perm (Member.posted
      (above.countP fun t => job.opens t.label) range (Member.nested [] ms)) := by
  have hfield : object.label.field = some "object" := Forest.field_of_child? hobject
  rw [← countP_opens_cons (hplain hk (by decide))]
  exact h _ hnames (by simp [Site.isPart, hfield])
    (by simp [Site.isMethodName, Site.isPart, hfield])

/-- **What a chain records**: the path of each of its members, in some order. -/
theorem postings_chains (h : t.Chains job.source range ms) :
    (ms.map (·.name)).head? ≠ some "" → job.PostsMembers range ms t := by
  induction h with
  | name hname =>
    intro _ above hnames hproperty hmethod
    rw [postings_name hname (hplain hname.kind (by decide)) hproperty hmethod, hnames]
    exact List.Perm.refl _
  | @dotted m ms t object property hn ht hparts hobject hproperty hname hchain ih =>
    intro hhead above hnames _ _
    have hk : t.label.kind = .memberAccess := Label.kind_of_type hn ht (by decide)
    have hhead' := hchain.head?_of_concat hhead
    have hnames' := (literalNames_cons hk (by decide)).trans hnames
    have hfirst := (ih hhead').object hplain hk hobject hnames'
    -- the property comes behind its object
    have hlast := postings_property hname (hplain hname.kind (by decide)) hk
      (Forest.field_of_child? hproperty) hnames'
    rw [countP_opens_cons (hplain hk (by decide))] at hlast
    rw [postings_eq hn hparts, posting?_dotted hk ((Tree.property?_of_dotted ht).trans hproperty)
      hname, List.flatMap_cons, List.flatMap_singleton, hlast, posted_nested_concat
        (.dotted hn ht hparts hobject hproperty hname hchain) hhead']
    exact hfirst.append_right _
  | @subscript m ms t object index hn ht hparts hobject hindex hquoted hchain ih =>
    intro hhead above hnames _ _
    have hk : t.label.kind = .memberAccess := Label.kind_of_type hn ht (by decide)
    have hhead' := hchain.head?_of_concat hhead
    have hrest := (ih hhead').object hplain hk hobject
      ((literalNames_cons hk (by decide)).trans hnames)
    rw [postings_eq hn hparts, posting?_subscript hk (hplain hk (by decide))
      ((Tree.property?_of_subscript ht).trans hindex) hquoted hnames, List.flatMap_cons,
      List.flatMap_singleton, postings_quoted hquoted, List.append_nil, posted_nested_concat
        (.subscript hn ht hparts hobject hindex hquoted hchain) hhead']
    -- the subscript comes before its object
    exact (hrest.cons _).trans (List.perm_append_singleton _ _).symm

end Job

/-! ### Tables -/

/-- What a posting adds to a table. -/
def Posting.addition (p : Posting) : Addition := ⟨p.path, p.span⟩

namespace SymbolTable

open SymbolPath

theorem addAll_empty (ps : List Posting) :
    empty.addAll ps = ofAdditions (ps.map Posting.addition) := by
  rw [ofAdditions, List.foldl_map]
  rfl

/-- If keys differ, one member has a key. -/
theorem filter_key_eq {α : Type} {key : α → String} {xs : List α} (h : (xs.map key).Nodup) {a : α}
    (ha : a ∈ xs) : (xs.filter fun x => key x = key a) = [a] := by
  induction xs with
  | nil => cases ha
  | cons x xs ih =>
    rw [List.map_cons, List.nodup_cons] at h
    rcases List.mem_cons.mp ha with rfl | ha
    · have hrest : (xs.filter fun y => key y = key a) = [] := by
        rw [List.filter_eq_nil_iff]
        intro y hy heq
        exact h.1 (List.mem_map.mpr ⟨y, hy, by simpa using heq⟩)
      rw [List.filter_cons_of_pos (by simp), hrest]
    · have hne : key x ≠ key a := fun heq => h.1 (heq ▸ List.mem_map_of_mem ha)
      rw [List.filter_cons_of_neg (by simpa using hne), ih h.2 ha]

/-- One of the members has a path, and it is added where that member stands. -/
theorem spans_posted {depth : Nat} {place : Member → Span} {ms : List (String × Member)}
    (hnodup : (ms.map (·.1)).Nodup) {e : String × Member} (he : e ∈ ms) :
    Addition.spans e.1 ((Member.posted depth place ms).map Posting.addition) = [place e.2] := by
  rw [Addition.spans, Member.posted, List.map_map, List.filter_map, List.map_map]
  exact congrArg _ (filter_key_eq hnodup he)

/-- **The table that declarations and uses fill.**  If each member is declared and then
used, the uses in any order, each key has its declaration and its use. -/
theorem entries_addAll_members {depth : Nat} {ms : List (String × Member)} {ps : List Posting}
    (hnodup : (ms.map (·.1)).Nodup) (hperm : ps.Perm (Member.posted depth (·.used) ms)) :
    (empty.addAll (Member.posted depth (·.declared) ms ++ ps)).entries = ms.map fun e =>
      (escape e.1, [⟨e.2.declared, true⟩, ⟨e.2.used, false⟩]) := by
  have hpaths : ∀ place : Member → Span,
      ((Member.posted depth place ms).map Posting.addition).map (·.path) = ms.map (·.1) := by
    intro place
    rw [Member.posted, List.map_map, List.map_map]
    rfl
  have hadditions := hperm.map Posting.addition
  have hknown : ∀ a ∈ ps.map Posting.addition,
      a.path ∈ ((Member.posted depth (·.declared) ms).map Posting.addition).map (·.path) := by
    intro a ha
    rw [hpaths, ← hpaths (·.used)]
    exact List.mem_map_of_mem (hadditions.subset ha)
  rw [addAll_empty, entries_ofAdditions, Addition.listing, List.map_append,
    Addition.paths_append_known (by rwa [hpaths]) hknown, hpaths, List.map_map]
  refine List.map_congr_left fun e he => ?_
  -- one of the uses has the path, wherever it stands
  have huse : Addition.spans e.1 (ps.map Posting.addition) = [e.2.used] := by
    rw [← List.perm_singleton, ← spans_posted hnodup he]
    exact (hadditions.filter _).map _
  rw [Function.comp_apply, Addition.occurrences, Addition.spans_append, spans_posted hnodup he,
    huse]
  rfl

/-- The keys of members in one another are the dotted texts of the names down to each. -/
theorem entries_addAll_nested {depth : Nat} {ms : List Member} {ps : List Posting}
    (hname : (ms.map (·.name)).head? ≠ some "")
    (hperm : ps.Perm (Member.posted depth (·.used) (Member.nested [] ms))) :
    (empty.addAll (Member.posted depth (·.declared) (Member.nested [] ms) ++ ps)).entries =
      ms.mapIdx fun i m =>
        (SymbolPath.escape (Separated.ofPieces '.' ((ms.take (i + 1)).map (·.name))),
          [⟨m.declared, true⟩, ⟨m.used, false⟩]) := by
  rw [entries_addAll_members (Member.nodup_nested ms hname) hperm,
    Member.nested_eq_mapIdx ms hname]
  exact List.ext_getElem (by simp) (by simp)

end SymbolTable

/-! ### Programs -/

/-- The tree is another one, perhaps below nodes that have no part in naming and open no
scope. -/
inductive Tree.Wraps (types : List String) : Tree → Tree → Prop where
  /-- There are no such nodes. -/
  | self (t : Tree) : Wraps types t t
  /-- There is one more. -/
  | wrap {t u v : Tree} : t.label.named = true → t.label.kind = .other → t.label.type ∉ types →
      t.children.parts = [u] → Wraps types u v → Wraps types t v

/-- A program that binds the first member to nested literals with the others for keys, and
then follows the members in a chain. -/
structure Tree.DeclaresThenUses (source : Source) (types : List String) (ms : List Member)
    (tree : Tree) : Prop where
  named : tree.label.named = true
  type : tree.label.type = "program"
  parts : ∃ first second binding chain : Tree, tree.children.parts = [first, second] ∧
    first.Wraps types binding ∧ binding.Binds source (·.declared) ms ∧
    second.Wraps types chain ∧ chain.Chains source (·.used) ms

/-- The nodes of a lineage are those of the outermost level: one scope, no names, and a
parent that has no part in naming. -/
structure Job.Outer (job : Job) (above : List Tree) : Prop where
  depth : (above.countP fun t => job.opens t.label) = 1
  names : job.literalNames above = []
  parent : ∀ p, above.head? = some p → p.label.kind = .other

namespace Job

variable {job : Job} {above : List Tree} {t : Tree}

theorem Outer.isIn (h : job.Outer above) {kind : Kind} (hk : kind ≠ .other) :
    Site.isIn ⟨t, above⟩ kind = false := by
  cases above with
  | nil => rfl
  | cons p up =>
    have hp : p.label.kind = .other := h.parent p rfl
    simp [Site.isIn, Site.parent?, Site.kind, hp, hk.symm]

/-- Wrapping a tree does not change what it records. -/
theorem exists_postings_of_wraps {types : List String} {u : Tree}
    (htypes : ∀ l : Label, l.type ∉ types → job.opens l = false) (h : t.Wraps types u) :
    ∀ {above : List Tree}, job.Outer above →
      ∃ above', job.Outer above' ∧ job.postings above t = job.postings above' u := by
  induction h with
  | self t => intro above habove; exact ⟨above, habove, rfl⟩
  | @wrap t u v hn hk ht hparts _ ih =>
    intro above habove
    have hbelow : job.Outer (t :: above) := by
      refine ⟨?_, ?_, ?_⟩
      · rw [countP_opens_cons (htypes _ ht), habove.depth]
      · rw [literalNames_cons hk (by decide), habove.names]
      · intro p hp
        rwa [← Option.some.inj hp]
    obtain ⟨above', habove', heq⟩ := ih hbelow
    refine ⟨above', habove', ?_⟩
    rw [postings_of_parts hn hk (by decide) hparts, List.flatMap_singleton, heq]

/-- **What a program records that declares members and then uses them.** -/
theorem exists_postings_program {types : List String} {tree : Tree} {ms : List Member}
    (hplain : ∀ {l : Label} {k : Kind}, l.kind = k → k ∉ [.other, .method] → job.opens l = false)
    (htypes : ∀ l : Label, l.type ∉ types → job.opens l = false)
    (ho : job.opens tree.label = true) (h : tree.DeclaresThenUses job.source types ms)
    (hname : (ms.map (·.name)).head? ≠ some "") :
    ∃ uses : List Posting, uses.Perm (Member.posted 1 (·.used) (Member.nested [] ms)) ∧
      tree.sites.filterMap job.posting? =
        Member.posted 1 (·.declared) (Member.nested [] ms) ++ uses := by
  have hk : tree.label.kind = .other := Label.kind_of_type h.named h.type (by decide)
  have hroot : job.Outer [tree] := by
    refine ⟨?_, literalNames_cons hk (by decide), ?_⟩
    · rw [List.countP_singleton, if_pos ho]
    · intro p hp
      rwa [← Option.some.inj hp]
  obtain ⟨first, second, binding, chain, hparts, hfirst, hbinds, hsecond, hchains⟩ := h.parts
  obtain ⟨above, habove, hdeclared⟩ := exists_postings_of_wraps htypes hfirst hroot
  obtain ⟨above', habove', hused⟩ := exists_postings_of_wraps htypes hsecond hroot
  have hsites : tree.sites.filterMap job.posting? =
      job.postings above binding ++ job.postings above' chain := by
    change job.postings [] tree = _
    rw [postings_of_parts h.named hk (by decide) hparts, List.flatMap_cons, List.flatMap_singleton,
      hdeclared, hused]
  have hproperty : Site.isPart ⟨chain, above'⟩ "property" .memberAccess = false := by
    rw [Site.isPart, habove'.isIn (by decide), Bool.and_false]
  have hmethod : Site.isMethodName ⟨chain, above'⟩ = false := by
    rw [Site.isMethodName, Site.isPart, habove'.isIn (by decide), Bool.and_false, Bool.false_and]
  refine ⟨job.postings above' chain, ?_, ?_⟩
  · rw [← habove'.depth]
    exact postings_chains hplain hchains hname above' habove'.names hproperty hmethod
  · rw [hsites, postings_binds hplain hbinds habove.names, habove.depth]

end Job

namespace Boundary

variable {types : List String} {l : Label} {k : Kind}

theorem opens_ofTypes_iff : (ofTypes types).opens l = true ↔ l.named = true ∧ l.type ∈ types := by
  simp [opens, ofTypes]

theorem opens_ofTypes_of_type (h : l.type ∉ types) : (ofTypes types).opens l = false := by
  rw [Bool.eq_false_iff]
  exact fun ho => h (opens_ofTypes_iff.mp ho).2

/-- If scopes are for methods and for nodes that have no part in naming, other nodes open
none. -/
theorem opens_ofTypes_of_kind
    (htypes : ∀ type ∈ types, Kind.ofType type ∈ [Kind.other, .method]) (hk : l.kind = k)
    (h : k ∉ [.other, .method]) : (ofTypes types).opens l = false := by
  rw [Bool.eq_false_iff]
  intro ho
  obtain ⟨hn, ht⟩ := opens_ofTypes_iff.mp ho
  rw [← hk, Label.kind, if_pos hn] at h
  exact h (htypes _ ht)

end Boundary

namespace Document

/-- **A chain finds what nesting declares.**  Let a program bind a name to object literals
in one another, whose innermost value records nothing, and then follow the same names in
a chain, each link a dotted property or a quoted subscript.  If the first name is not
empty, the scope of the program holds the dotted texts of the names down to each of them,
and nothing else, each with its declaration in the binding and its use in the chain. -/
theorem indexTree_members (source : Source) (tree : Tree) (path marker : String) (tolerant : Bool)
    (types : List String) (ms : List Member) (hprogram : "program" ∈ types)
    (htypes : ∀ type ∈ types, Kind.ofType type ∈ [Kind.other, .method])
    (htree : tree.DeclaresThenUses source types ms)
    (hname : ms.head?.map (·.name) ≠ some "") :
    ∃ others, (indexTree source tree path ⟨tolerant, marker, .ofTypes types⟩).result =
        .ok ({ type := "program", span := tree.label.span, depth := 0
               symbols := ms.mapIdx fun i m =>
                (SymbolPath.escape (Separated.ofPieces '.' ((ms.take (i + 1)).map (·.name))),
                  [⟨m.declared, true⟩, ⟨m.used, false⟩]) } :: others) ∧
      ∀ scope ∈ others, scope.symbols = [] := by
  let job := Job.ofRules source path ⟨tolerant, marker, .ofTypes types⟩
  have hplain : ∀ {l : Label} {k : Kind}, l.kind = k → k ∉ [.other, .method] →
      job.opens l = false := Boundary.opens_ofTypes_of_kind htypes
  have hother : ∀ l : Label, l.type ∉ types → job.opens l = false :=
    fun _ => Boundary.opens_ofTypes_of_type
  have ht : tree.label.type ∈ types := htree.type ▸ hprogram
  have ho : job.opens tree.label = true := Boundary.opens_ofTypes_iff.mpr ⟨htree.named, ht⟩
  have hhead : (ms.map (·.name)).head? ≠ some "" := by rwa [List.head?_map]
  obtain ⟨uses, hperm, hsites⟩ := Job.exists_postings_program hplain hother ho htree hhead
  have hlone : ∀ e ∈ tree.sites.filterMap job.posting?, e.depth = 1 := by
    intro e he
    rw [hsites, List.mem_append] at he
    rcases he with he | he
    · obtain ⟨m, -, rfl⟩ := List.mem_map.mp he
      rfl
    · obtain ⟨m, -, rfl⟩ := List.mem_map.mp (hperm.subset he)
      rfl
  obtain ⟨others, hreading, hempty⟩ := Job.reading_of_lone (fun _ _ => rfl) htree.named ho hlone
  obtain ⟨scopes, hscopes⟩ :
      ∃ scopes, (indexTree source tree path ⟨tolerant, marker, .ofTypes types⟩).result =
        .ok scopes := exists_indexTree_of_root htree.named ht
  refine ⟨others, ?_, hempty⟩
  rw [hscopes, (Job.indexTree_settled hscopes).2]
  change Except.ok (job.reading tree) = _
  rw [hreading, hsites, SymbolTable.entries_addAll_nested hhead hperm, htree.type]

end Document

/-! ### A reserved name and a name with a blank -/

namespace Sample

/-- Three members: the second is the reserved name, the third starts with a blank. -/
def members : List Member :=
  [⟨"x", ⟨4, 5⟩, ⟨27, 28⟩⟩, ⟨"constructor", ⟨7, 18⟩, ⟨29, 42⟩⟩, ⟨" a", ⟨20, 22⟩, ⟨44, 46⟩⟩]

/-- They are declared by nesting and used in a chain with a subscript and a dot. -/
def membersSource : Source :=
  .ofText "var x=\x7bconstructor:\x7b a:1\x7d\x7d;x['constructor']. a"

/-- The literal at the inside. -/
def innerLiteral : Tree :=
  ⟨{ type := "object", span := ⟨19, 25⟩, field := some "value" },
    .cons { type := "\x7b", span := ⟨19, 20⟩, named := false } .nil <|
    .cons { type := "pair", span := ⟨20, 24⟩ }
      (.cons { type := "property_identifier", span := ⟨20, 22⟩, field := some "key" } .nil <|
        .cons { type := ":", span := ⟨22, 23⟩, named := false } .nil <|
        .cons { type := "number", span := ⟨23, 24⟩, field := some "value" } .nil .nil) <|
    .cons { type := "\x7d", span := ⟨24, 25⟩, named := false } .nil .nil⟩

/-- The literal around it. -/
def outerLiteral : Tree :=
  ⟨{ type := "object", span := ⟨6, 26⟩, field := some "value" },
    .cons { type := "\x7b", span := ⟨6, 7⟩, named := false } .nil <|
    .cons { type := "pair", span := ⟨7, 25⟩ }
      (.cons { type := "property_identifier", span := ⟨7, 18⟩, field := some "key" } .nil <|
        .cons { type := ":", span := ⟨18, 19⟩, named := false } .nil <|
        .cons innerLiteral.label innerLiteral.children .nil) <|
    .cons { type := "\x7d", span := ⟨25, 26⟩, named := false } .nil .nil⟩

/-- The binding. -/
def membersBinding : Tree :=
  ⟨{ type := "variable_declarator", span := ⟨4, 26⟩ },
    .cons { type := "identifier", span := ⟨4, 5⟩, field := some "name" } .nil <|
    .cons { type := "=", span := ⟨5, 6⟩, named := false } .nil <|
    .cons outerLiteral.label outerLiteral.children .nil⟩

/-- The access with a subscript. -/
def innerAccess : Tree :=
  ⟨{ type := "subscript_expression", span := ⟨27, 43⟩, field := some "object" },
    .cons { type := "identifier", span := ⟨27, 28⟩, field := some "object" } .nil <|
    .cons { type := "[", span := ⟨28, 29⟩, named := false } .nil <|
    .cons { type := "string", span := ⟨29, 42⟩, field := some "index" }
      (.cons { type := "string_fragment", span := ⟨30, 41⟩ } .nil .nil) <|
    .cons { type := "]", span := ⟨42, 43⟩, named := false } .nil .nil⟩

/-- The chain. -/
def membersChain : Tree :=
  ⟨{ type := "member_expression", span := ⟨27, 46⟩ },
    .cons innerAccess.label innerAccess.children <|
    .cons { type := ".", span := ⟨43, 44⟩, named := false } .nil <|
    .cons { type := "property_identifier", span := ⟨44, 46⟩, field := some "property" } .nil .nil⟩

/-- The program. -/
def membersTree : Tree :=
  ⟨{ type := "program", span := ⟨0, 46⟩ },
    .cons { type := "variable_declaration", span := ⟨0, 27⟩ }
      (.cons { type := "var", span := ⟨0, 3⟩, named := false } .nil <|
        .cons membersBinding.label membersBinding.children <|
        .cons { type := ";", span := ⟨26, 27⟩, named := false } .nil .nil) <|
    .cons { type := "expression_statement", span := ⟨27, 46⟩ }
      (.cons membersChain.label membersChain.children .nil) .nil⟩

theorem membersBinding_binds : membersBinding.Binds membersSource (·.declared) members := by
  have hinner : innerLiteral.Nests membersSource (·.declared) [⟨" a", ⟨20, 22⟩, ⟨44, 46⟩⟩] :=
    .literal (by decide) rfl (by decide) rfl rfl
      ⟨by decide, rfl, by decide +kernel, rfl⟩ rfl (.value (by unfold Tree.Silent; decide))
  have houter : outerLiteral.Nests membersSource (·.declared) members.tail :=
    .literal (by decide) rfl (by decide) rfl rfl
      ⟨by decide, rfl, by decide +kernel, rfl⟩ rfl hinner
  exact .mk (by decide) rfl rfl ⟨by decide, rfl, by decide +kernel, rfl⟩ rfl houter

theorem membersChain_chains : membersChain.Chains membersSource (·.used) members := by
  have hfirst : Tree.Chains membersSource (·.used) [⟨"x", ⟨4, 5⟩, ⟨27, 28⟩⟩]
      ⟨{ type := "identifier", span := ⟨27, 28⟩, field := some "object" }, .nil⟩ :=
    .name ⟨by decide, rfl, by decide +kernel, rfl⟩
  have hinner : innerAccess.Chains membersSource (·.used)
      ([⟨"x", ⟨4, 5⟩, ⟨27, 28⟩⟩] ++ [⟨"constructor", ⟨7, 18⟩, ⟨29, 42⟩⟩]) :=
    .subscript rfl rfl rfl rfl rfl
      ⟨rfl, rfl, by decide, ⟨'\x27', '\x27', by decide +kernel⟩, rfl⟩ hfirst
  exact .dotted rfl rfl rfl rfl rfl ⟨by decide, rfl, by decide +kernel, rfl⟩ hinner

end Sample

theorem Document.indexTree_members_sample :
    ∃ others, (indexTree Sample.membersSource Sample.membersTree "m.js"
          ⟨false, "?", .ofTypes (Settings.nodeTypes {})⟩).result =
        .ok ({ type := "program", span := ⟨0, 46⟩, depth := 0
               symbols := [("x", [⟨⟨4, 5⟩, true⟩, ⟨⟨27, 28⟩, false⟩]),
                ("x. constructor", [⟨⟨7, 18⟩, true⟩, ⟨⟨29, 42⟩, false⟩]),
                ("x. constructor.  a", [⟨⟨20, 22⟩, true⟩, ⟨⟨44, 46⟩, false⟩])] } :: others) ∧
      ∀ scope ∈ others, scope.symbols = [] := by
  have htree : Sample.membersTree.DeclaresThenUses Sample.membersSource (Settings.nodeTypes {})
      Sample.members := by
    refine ⟨rfl, rfl, _, _, Sample.membersBinding, Sample.membersChain, rfl, ?_,
      Sample.membersBinding_binds, ?_, Sample.membersChain_chains⟩
    · exact .wrap rfl (by decide) (by decide) rfl (.self _)
    · exact .wrap rfl (by decide) (by decide) rfl (.self _)
  exact indexTree_members Sample.membersSource Sample.membersTree "m.js" "?" false
    (Settings.nodeTypes {}) Sample.members (by decide) (by decide) htree (by decide)

end ScopeIndex
