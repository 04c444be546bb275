import Mathlib
import ScopeIndex.Proofs.Discipline

/-!
# Every occurrence once

No occurrence is lost and none is recorded twice.  A mention puts one range into one
table, and that table belongs to a scope that is returned; so the ranges of an index are
those of the mentions of the tree.  A method of an object literal speaks for the
identifier that names it, which keeps silent itself; apart from that each identifier,
each constant property and each constant method name speaks for itself.

## Main definitions

* `IndexedScope.spans` — the ranges of the occurrences of a scope.
* `Site.recorded?` — the range that a site records.
* `tally` — the ranges that a list of sites gives.

## Main results

* `Job.sum_spans_reading` — the ranges of an index are those of its mentions.
* `tally_skipped` — identifiers keep silent just where methods speak for them.
* `Job.spans_indexTree` — the ranges of an index, counted on the tree.
-/

namespace ScopeIndex

/-! ### Ranges in tables -/

/-- The ranges of the occurrences in a list of entries. -/
def entrySpans (es : List (String × List Occurrence)) : Multiset Span :=
  ↑(es.flatMap fun e => e.2.map (·.span))

/-- The ranges of the occurrences of a scope. -/
def IndexedScope.spans (s : IndexedScope) : Multiset Span := entrySpans s.symbols

/-- The ranges of the occurrences in a table. -/
def SymbolTable.spans (t : SymbolTable) : Multiset Span := entrySpans t.entries

theorem entrySpans_cons (e : String × List Occurrence) (es : List (String × List Occurrence)) :
    entrySpans (e :: es) = ↑(e.2.map (·.span)) + entrySpans es := by
  simp [entrySpans]

theorem entrySpans_insert (key : String) (span : Span) (es : List (String × List Occurrence)) :
    entrySpans (SymbolTable.insert key span es) = span ::ₘ entrySpans es := by
  induction es with
  | nil => rfl
  | cons e es ih =>
    obtain ⟨k, os⟩ := e
    rw [SymbolTable.insert]
    split
    · rw [entrySpans_cons, entrySpans_cons, List.map_append, ← Multiset.coe_add, add_right_comm,
        add_comm, ← Multiset.singleton_add]
      rfl
    · rw [entrySpans_cons, entrySpans_cons, ih, Multiset.add_cons]

/-- An addition adds its range. -/
theorem SymbolTable.spans_add (t : SymbolTable) (path : String) (span : Span) :
    (t.add path span).spans = span ::ₘ t.spans :=
  entrySpans_insert _ span t.entries

/-! ### Ranges of mentions -/

namespace Mention

/-- A mention that has scopes in view goes to one of them. -/
theorem exists_target? {m : Mention} (h : m.scopes ≠ []) (tables : Nat → SymbolTable) :
    ∃ j ∈ m.scopes, m.target? tables = some j := by
  obtain ⟨i, is, hi⟩ := List.exists_cons_of_ne_nil h
  unfold target?
  rw [hi]
  split
  · exact ⟨i, List.mem_cons_self, rfl⟩
  · cases hf : (i :: is).find? fun j => (tables j).contains m.path with
    | none => exact ⟨i, List.mem_cons_self, rfl⟩
    | some j => exact ⟨j, List.mem_of_find?_eq_some hf, rfl⟩

/-- A mention adds its range to one table. -/
theorem sum_spans_place {m : Mention} {ids : List Nat} (hids : ids.Nodup) (h : m.scopes ≠ [])
    (hin : ∀ k ∈ m.scopes, k ∈ ids) (tables : Nat → SymbolTable) :
    (ids.map fun i => (place tables m i).spans).sum =
      m.span ::ₘ (ids.map fun i => (tables i).spans).sum := by
  obtain ⟨j, hj, htarget⟩ := exists_target? h tables
  have hplace : ∀ i, (place tables m i).spans =
      if j = i then m.span ::ₘ (tables i).spans else (tables i).spans := by
    intro i
    simp only [place, htarget, Option.some.injEq]
    split
    · exact SymbolTable.spans_add _ _ _
    · rfl
  obtain ⟨before, after, rfl⟩ := List.append_of_mem (hin j hj)
  -- the table stands at one place only
  have hbefore : ∀ i ∈ before, (place tables m i).spans = (tables i).spans := by
    intro i hi
    rw [hplace, if_neg]
    rintro rfl
    exact (List.nodup_append'.mp hids).2.2 hi List.mem_cons_self
  have hafter : ∀ i ∈ after, (place tables m i).spans = (tables i).spans := by
    intro i hi
    rw [hplace, if_neg]
    rintro rfl
    exact (List.nodup_cons.mp (List.nodup_append'.mp hids).2.1).1 hi
  rw [List.map_append, List.map_append, List.map_cons, List.map_cons, List.map_congr_left hbefore,
    List.map_congr_left hafter, hplace, if_pos rfl, List.sum_append, List.sum_append, List.sum_cons,
    List.sum_cons, Multiset.cons_add, Multiset.add_cons]

/-- Mentions add their ranges to the tables of the scopes they have in view. -/
theorem sum_spans_foldl {ids : List Nat} (hids : ids.Nodup) : ∀ (ms : List Mention),
    (∀ m ∈ ms, m.scopes ≠ [] ∧ ∀ k ∈ m.scopes, k ∈ ids) → ∀ tables : Nat → SymbolTable,
    (ids.map fun i => (ms.foldl place tables i).spans).sum =
      ↑(ms.map (·.span)) + (ids.map fun i => (tables i).spans).sum
  | [], _, tables => by simp
  | m :: ms, h, tables => by
    obtain ⟨hm, hms⟩ := List.forall_mem_cons.mp h
    rw [List.foldl_cons, sum_spans_foldl hids ms hms, sum_spans_place hids hm.1 hm.2, List.map_cons,
      ← Multiset.cons_coe, Multiset.cons_add, Multiset.add_cons]

end Mention

/-! ### Ranges of an index -/

namespace Job

variable {job : Job} {s : Site} {m : Mention}

/-- A site has scopes of its lineage in view. -/
theorem scopes_subset_of_mention? (h : job.mention? s = some m) :
    m.scopes ⊆ job.scopeIds s.lineage := by
  have habove : job.scopeIds s.above ⊆ job.scopeIds s.lineage :=
    job.scopeIds_subset_cons s.node s.above
  unfold mention? at h
  split at h
  · obtain ⟨q, -, rfl⟩ := Option.map_eq_some_iff.mp h
    exact List.Subset.refl _
  · split at h
    · obtain ⟨n, -, rfl⟩ := Option.map_eq_some_iff.mp h
      exact habove
    · cases h
  · split at h
    · obtain ⟨q, -, rfl⟩ := Option.map_eq_some_iff.mp h
      exact List.Subset.refl _
    · split at h
      · cases h
      · cases h
        exact List.Subset.refl _
  · cases h

/-- The scopes of a lineage are those of sites. -/
theorem mem_scopeSites_of_mem_scopeIds {tree : Tree} {k : Nat} (hs : s ∈ tree.numbered.sites)
    (hk : k ∈ job.scopeIds s.lineage) : k ∈ (job.scopeSites tree.numbered.sites).map Site.id := by
  obtain ⟨t, ht, rfl⟩ := List.mem_map.mp hk
  obtain ⟨ht, ho⟩ := List.mem_filter.mp ht
  rcases Forest.mem_lineage _ hs ht with hnil | ⟨r, hr, rfl⟩
  · cases hnil
  · exact List.mem_map_of_mem (List.mem_filter.mpr ⟨hr, ho⟩)

/-- The ranges of an index are those of its mentions. -/
theorem sum_spans_reading {tree : Tree} (h : ∀ s ∈ tree.numbered.sites, job.Grounded s) :
    ((job.reading tree).map IndexedScope.spans).sum =
      ↑((job.mentions tree.numbered.sites).map (·.span)) := by
  have hids : ((job.scopeSites tree.numbered.sites).map Site.id).Nodup :=
    tree.nodup_sites_numbered.sublist (List.filter_sublist.map _)
  have hin : ∀ m ∈ job.mentions tree.numbered.sites,
      m.scopes ≠ [] ∧ ∀ k ∈ m.scopes, k ∈ (job.scopeSites tree.numbered.sites).map Site.id := by
    intro m hm
    obtain ⟨s, hs, hsm⟩ := List.mem_filterMap.mp hm
    exact ⟨(h s hs).1 m hsm, fun k hk =>
      mem_scopeSites_of_mem_scopeIds hs (scopes_subset_of_mention? hsm hk)⟩
  have hsum := Mention.sum_spans_foldl hids _ hin fun _ => {}
  have hzero : (((job.scopeSites tree.numbered.sites).map Site.id).map fun _ =>
      SymbolTable.spans {}).sum = 0 := by
    simp [SymbolTable.spans, entrySpans, Function.comp_def]
  rw [hzero, add_zero, List.map_map] at hsum
  rw [← hsum, reading, List.map_map]
  rfl

end Job

/-! ### Ranges counted on a tree -/

namespace Site

/-- Is the node a method that stands in an object literal? -/
def isLiteralMethod (s : Site) : Bool := s.kind == .method && s.isIn .objectLiteral

/-- The range of an identifier. -/
def identifier? (s : Site) : Option Span :=
  if s.kind = .identifier then some s.node.label.span else none

/-- The range of the property of a member access, if that is a constant. -/
def constantProperty? (s : Site) : Option Span :=
  if s.kind = .memberAccess then
    (s.node.property?.filter fun q => q.label.kind = .literal).map (·.label.span)
  else none

/-- The range of the name of a method in an object literal, if that is no identifier. -/
def quotedName? (s : Site) : Option Span :=
  if s.isLiteralMethod then
    ((s.node.child? "name").filter fun n => n.label.kind ≠ .identifier).map (·.label.span)
  else none

/-- The range of the name of a method in an object literal, if that is an identifier. -/
def plainName? (s : Site) : Option Span :=
  if s.isLiteralMethod then
    ((s.node.child? "name").filter fun n => n.label.kind = .identifier).map (·.label.span)
  else none

/-- The range of an identifier that keeps silent, since it names a method in an object
literal. -/
def skipped? (s : Site) : Option Span :=
  if s.kind = .identifier ∧ s.isMethodName then some s.node.label.span else none

/-- The range that a site records. -/
def recorded? (s : Site) : Option Span :=
  match s.kind with
  | .memberAccess => s.constantProperty?
  | .method => if s.isIn .objectLiteral then (s.node.child? "name").map (·.label.span) else none
  | .identifier => if s.isMethodName then none else some s.node.label.span
  | _ => none

/-- An accessed property names no method. -/
theorem isMethodName_of_property {s : Site} (h : s.isPart "property" .memberAccess = true) :
    s.isMethodName = false := by
  rw [isPart, Bool.and_eq_true, beq_iff_eq] at h
  simp [isMethodName, isPart, h.1]

/-- The range of a mention is the one that its site records. -/
theorem mention?_span (job : Job) (s : Site) : (job.mention? s).map (·.span) = s.recorded? := by
  unfold Job.mention? recorded?
  cases hk : s.kind with
  | memberAccess =>
    simp only [constantProperty?, hk, if_true, Option.map_map]
    rfl
  | method =>
    cases s.isIn .objectLiteral with
    | true => exact Option.map_map ..
    | false => rfl
  | identifier =>
    cases hprop : s.isPart "property" .memberAccess with
    | true =>
      obtain ⟨q, hq, -⟩ := exists_parent_of_isPart hprop
      simp only [hq, isMethodName_of_property hprop, Option.map_some]
      rfl
    | false => cases s.isMethodName <;> rfl
  | _ => rfl

/-- What a site records, and what it leaves to its method, are its identifier, its
constant property and its name, be it quoted or plain. -/
theorem recorded?_add_skipped? (s : Site) :
    (↑s.recorded?.toList : Multiset Span) + ↑s.skipped?.toList =
      ↑s.identifier?.toList + ↑s.constantProperty?.toList + ↑s.quotedName?.toList +
        ↑s.plainName?.toList := by
  unfold recorded? skipped? identifier? constantProperty? quotedName? plainName? isLiteralMethod
  cases hk : s.kind with
  | identifier => cases s.isMethodName <;> simp
  | memberAccess => simp
  | method =>
    cases s.isIn .objectLiteral with
    | false => simp
    | true =>
      cases s.node.child? "name" with
      | none => simp
      | some n => by_cases hn : n.label.kind = .identifier <;> simp [Option.filter, hn]
  | _ => simp

end Site

/-- The ranges that a list of sites gives. -/
def tally (g : Site → Option Span) (ss : List Site) : Multiset Span := ↑(ss.filterMap g)

@[simp] theorem tally_nil (g : Site → Option Span) : tally g [] = 0 := rfl

theorem tally_cons (g : Site → Option Span) (s : Site) (ss : List Site) :
    tally g (s :: ss) = ↑(g s).toList + tally g ss := by
  cases hs : g s <;> simp [tally, hs]

theorem tally_append (g : Site → Option Span) (ss ts : List Site) :
    tally g (ss ++ ts) = tally g ss + tally g ts := by
  simp [tally]

theorem tally_recorded_add_skipped (ss : List Site) :
    tally Site.recorded? ss + tally Site.skipped? ss =
      tally Site.identifier? ss + tally Site.constantProperty? ss + tally Site.quotedName? ss +
        tally Site.plainName? ss := by
  induction ss with
  | nil => rfl
  | cons s ss ih =>
    simp only [tally_cons]
    rw [add_add_add_comm, ih, Site.recorded?_add_skipped?]
    abel

/-! ### Methods speak for their names -/

/-- The trees of a row. -/
def Forest.roots : Forest → List Tree
  | nil => []
  | cons l kids rest => ⟨l, kids⟩ :: rest.roots

/-- The subtrees of a row, one for each of its nodes. -/
def Forest.subtrees : Forest → List Tree
  | nil => []
  | cons l kids rest => ⟨l, kids⟩ :: kids.subtrees ++ rest.subtrees

/-- The number of children that are kept as a name. -/
def Site.nameCount (s : Site) : Nat :=
  s.node.children.roots.countP fun t => t.label.field = some "name"

theorem Forest.child?_eq_find? (field : String) (f : Forest) :
    f.child? field = f.roots.find? fun t => t.label.field = some field := by
  induction f with
  | nil => rfl
  | cons l kids rest _ ihr =>
    rw [child?, roots, List.find?_cons]
    split
    · next h => simp [h]
    · next h => simpa [h] using ihr

/-- If at most one member of a list has a property, picking out all that have it is
picking the first. -/
theorem filterMap_eq_of_countP_le_one {α β : Type} {p q : α → Bool} {g : α → β} :
    ∀ {xs : List α}, xs.countP q ≤ 1 →
      xs.filterMap (fun x => if p x ∧ q x then some (g x) else none) =
        (((xs.find? q).filter p).map g).toList
  | [], _ => rfl
  | x :: xs, h => by
    rw [List.countP_cons] at h
    cases hq : q x with
    | true =>
      have hnone : ∀ y ∈ xs, q y = false := by
        have hzero : xs.countP q = 0 := by
          rw [hq, if_pos rfl] at h
          omega
        simpa using List.countP_eq_zero.mp hzero
      have hrest : xs.filterMap (fun x => if p x ∧ q x then some (g x) else none) = [] := by
        rw [List.filterMap_eq_nil_iff]
        intro y hy
        simp [hnone y hy]
      rw [List.find?_cons_of_pos hq, List.filterMap_cons, hrest]
      cases hp : p x <;> simp [hp, hq, Option.filter]
    | false =>
      rw [hq, if_neg Bool.false_ne_true] at h
      rw [List.find?_cons_of_neg (by simp [hq]), ← filterMap_eq_of_countP_le_one h]
      simp [hq]

theorem Site.isMethodName_eq (t : Tree) (s : Site) :
    (⟨t, s.lineage⟩ : Site).isMethodName =
      (decide (t.label.field = some "name") && s.isLiteralMethod) := by
  simp [isMethodName, isPart, isIn, parent?, lineage, isLiteralMethod, Bool.and_assoc,
    beq_eq_decide, kind]

/-- The identifiers among the names of a method in an object literal keep silent; if it
has one name, that is the one the method speaks for. -/
theorem tally_skipped_kids {s : Site} (h : s.isLiteralMethod = true → s.nameCount ≤ 1) :
    tally Site.skipped? (s.node.children.roots.map fun t => ⟨t, s.lineage⟩) =
      ↑s.plainName?.toList := by
  have hskip : ∀ t : Tree, Site.skipped? ⟨t, s.lineage⟩ =
      if s.isLiteralMethod then
        if t.label.kind = .identifier ∧ t.label.field = some "name" then some t.label.span else none
      else none := by
    intro t
    rw [Site.skipped?, Site.isMethodName_eq]
    cases s.isLiteralMethod <;> simp [Site.kind]
  rw [tally, List.filterMap_map, Site.plainName?]
  simp only [Function.comp_def, hskip]
  split
  · next hs =>
    have hfirst := filterMap_eq_of_countP_le_one (p := fun t => decide (t.label.kind = .identifier))
      (g := fun t : Tree => t.label.span) (h hs)
    simp only [decide_eq_true_eq] at hfirst
    rw [hfirst, Tree.child?, Forest.child?_eq_find?]
  · simp

/-- Along a row, identifiers keep silent just where methods speak for them; those that
stand in the row itself are spoken for by its parent. -/
theorem tally_skipped (f : Forest) : ∀ above : List Tree,
    (∀ t ∈ f.subtrees, t.label.named = false → t.children = .nil) →
    (∀ s ∈ f.sites above, s.isLiteralMethod = true → s.nameCount ≤ 1) →
    tally Site.skipped? (f.sites above) =
      tally Site.skipped? (f.roots.map fun t => ⟨t, above⟩) +
        tally Site.plainName? (f.sites above) := by
  induction f with
  | nil => intro above _ _; rfl
  | cons l kids rest ihk ihr =>
    intro above hleaf hname
    have hleafr : ∀ t ∈ rest.subtrees, t.label.named = false → t.children = .nil := fun t ht =>
      hleaf t (by simp [Forest.subtrees, ht])
    cases hn : l.named with
    | true =>
      rw [Forest.sites_cons_of_named hn] at hname ⊢
      have hk := ihk (⟨l, kids⟩ :: above)
        (fun t ht => hleaf t (by simp [Forest.subtrees, ht])) fun s hs => hname s (by simp [hs])
      have hr := ihr above hleafr fun s hs => hname s (by simp [hs])
      have hself := tally_skipped_kids (s := ⟨⟨l, kids⟩, above⟩) (hname _ (by simp))
      simp only [Site.lineage] at hself
      rw [hself] at hk
      simp only [tally_append, tally_cons, Forest.roots, List.map_cons, hk, hr]
      abel
    | false =>
      -- a node without a name has no children, and is no identifier
      have hnil : kids = .nil := hleaf ⟨l, kids⟩ (by simp [Forest.subtrees]) hn
      have hself : Site.skipped? ⟨⟨l, kids⟩, above⟩ = none := by
        simp [Site.skipped?, Site.kind, Label.kind, hn]
      have hsites : (Forest.cons l kids rest).sites above = rest.sites above := by
        rw [Forest.sites_cons_of_anonymous hn, hnil]
        rfl
      rw [hsites] at hname ⊢
      rw [Forest.roots, List.map_cons, tally_cons, hself, ihr above hleafr hname]
      simp

/-! ### The ranges of an index -/

/-- What a site records does not depend on numbers. -/
theorem Site.recorded?_bare (s : Site) : s.bare.recorded? = s.recorded? := by
  have hchild : ∀ field, s.bare.node.child? field = (s.node.child? field).map Tree.bare :=
    fun field => Forest.child?_bare field s.node.children
  have hproperty : s.bare.node.property? = s.node.property?.map Tree.bare := hchild _
  have hspan : s.bare.node.label.span = s.node.label.span := rfl
  simp only [recorded?, constantProperty?, kind_bare, isIn_bare, isMethodName_bare, hchild,
    hproperty, hspan, Option.map_map, Option.filter_map]
  rfl

/-- **No occurrence is lost or duplicated.**  In a tree whose anonymous nodes are leaves
and whose methods in object literals have at most one name each, the ranges of an index
are those of the identifiers, those of the constant properties of member accesses, and
those of the names of methods in object literals that are no identifiers. -/
theorem Job.spans_indexTree (job : Job) (tree : Tree) (scopes : List IndexedScope)
    (hleaf : ∀ t ∈ tree.toForest.subtrees, t.label.named = false → t.children = .nil)
    (hname : ∀ s ∈ tree.sites, s.isLiteralMethod = true → s.nameCount ≤ 1)
    (h : (job.indexTree tree).result = .ok scopes) :
    (scopes.map IndexedScope.spans).sum =
      tally Site.identifier? tree.sites + tally Site.constantProperty? tree.sites +
        tally Site.quotedName? tree.sites := by
  obtain ⟨hgrounded, rfl⟩ := Job.indexTree_settled h
  have hrecorded : ((job.reading tree).map IndexedScope.spans).sum =
      tally Site.recorded? tree.sites := by
    rw [sum_spans_reading hgrounded, mentions, List.map_filterMap, tally,
      ← tree.filterMap_sites_numbered Site.recorded?_bare]
    simp only [Site.mention?_span]
  -- the root has no parent, so nobody speaks for it
  have hroot : tally Site.skipped? (tree.toForest.roots.map fun t => ⟨t, []⟩) = 0 := by
    simp [Tree.toForest, Forest.roots, tally_cons, Site.skipped?, Site.isMethodName, Site.isPart,
      Site.isIn, Site.parent?]
  have hsilent : tally Site.skipped? tree.sites = tally Site.plainName? tree.sites := by
    rw [Tree.sites, tally_skipped _ [] hleaf hname, hroot, zero_add]
  have hbalance := tally_recorded_add_skipped tree.sites
  rw [hsilent] at hbalance
  rw [hrecorded]
  exact add_right_cancel hbalance

theorem Job.spans_indexTree_sample :
    (∀ t ∈ Sample.tree.toForest.subtrees, t.label.named = false → t.children = .nil) ∧
      (∀ s ∈ Sample.tree.sites, s.isLiteralMethod = true → s.nameCount ≤ 1) ∧
      ((Job.ofRules Sample.source "o.js" ⟨false, "?", .ofTypes Sample.types⟩).indexTree
        Sample.tree).result = .ok Sample.scopes ∧
      (Sample.scopes.map IndexedScope.spans).sum =
        tally Site.identifier? Sample.tree.sites + tally Site.constantProperty? Sample.tree.sites +
          tally Site.quotedName? Sample.tree.sites := by
  have hleaf : ∀ t ∈ Sample.tree.toForest.subtrees, t.label.named = false → t.children = .nil := by
    decide
  have hname : ∀ s ∈ Sample.tree.sites, s.isLiteralMethod = true → s.nameCount ≤ 1 := by decide
  exact ⟨hleaf, hname, Sample.indexTree_eq,
    Job.spans_indexTree _ _ _ hleaf hname Sample.indexTree_eq⟩

end ScopeIndex
