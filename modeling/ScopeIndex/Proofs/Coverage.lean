import Mathlib
import ScopeIndex.Proofs.Leaks
import ScopeIndex.Proofs.Outline

/-!
# Which trees have an index

Where scopes are closed by the nodes that open them, all that can go wrong is that a node
needs a scope and finds none.  What is recorded needs a scope to be recorded in, and the
name of a literal needs a scope to be nested in.  A method of an object literal is
recorded outside its own scope, so it needs another one around it.

## Main definitions

* `Site.Covered` — the scopes that a site needs are there.

## Main results

* `Job.grounded_iff_covered` — a site finds the scopes it needs just when it is covered.
* `Job.run_want` — a walk that stops does so for want of a scope.
* `Document.exists_indexTree_iff`, `Document.indexTree_outcome` — which trees have an
  index, and how the others fail.
-/

namespace ScopeIndex

/-- The root is the first of the sites. -/
theorem Tree.sites_eq_cons {t : Tree} (hn : t.label.named = true) :
    t.sites = ⟨t, []⟩ :: t.children.sites [t] := by
  rw [Tree.sites, Tree.toForest, Forest.sites_cons_of_named hn, Forest.sites, List.append_nil]

/-- The nodes above a row stand above all its sites. -/
theorem Forest.suffix_above_of_mem_sites (f : Forest) : ∀ {above : List Tree} {s : Site},
    s ∈ f.sites above → above <:+ s.above := by
  induction f with
  | nil => intro above s hs; cases hs
  | cons l kids rest ihk ihr =>
    intro above s hs
    cases hn : l.named with
    | true =>
      rw [sites_cons_of_named hn, List.cons_append, List.mem_cons, List.mem_append] at hs
      rcases hs with rfl | hs | hs
      · exact List.suffix_rfl
      · exact (List.suffix_cons _ _).trans (ihk hs)
      · exact ihr hs
    | false =>
      rw [sites_cons_of_anonymous hn, List.mem_append] at hs
      exact hs.elim ihk ihr

/-! ### Covered sites -/

namespace Site

/-- Is the node an identifier that is recorded?  The name of a method in an object
literal is not, since the method speaks for it. -/
def recordsItself (s : Site) : Bool := s.kind == .identifier && !s.isMethodName

/-- The scopes that a site needs are there, if nodes of the given types open scopes. -/
structure Covered (types : List String) (s : Site) : Prop where
  /-- An identifier that is recorded, an access to a constant property and a literal that
  adds a name are scopes or stand in one. -/
  within : s.recordsItself = true ∨ s.constantProperty?.isSome = true ∨ s.addsName = true →
    ∃ t ∈ s.lineage, t.label.type ∈ types
  /-- A method of an object literal that has a name stands in a scope. -/
  around : s.isLiteralMethod = true → (s.node.child? "name").isSome = true →
    ∃ t ∈ s.above, t.label.type ∈ types

/-- What stands below a scope is covered. -/
theorem covered_of_mem_above {types : List String} {s : Site} {t : Tree} (ht : t ∈ s.above)
    (htype : t.label.type ∈ types) : s.Covered types where
  within := fun _ => ⟨t, List.mem_cons_of_mem _ ht, htype⟩
  around := fun _ _ => ⟨t, ht, htype⟩

/-- Whether a site is covered can be read off its outline. -/
theorem covered_outline (types : List String) (s : Site) :
    s.outline.Covered types ↔ s.Covered types := by
  have hrecords : s.outline.recordsItself = s.recordsItself := by simp [recordsItself]
  have htypes : ∀ ts : List Tree, (∃ t ∈ ts.map Tree.outline, t.label.type ∈ types) ↔
      ∃ t ∈ ts, t.label.type ∈ types := by
    intro ts
    simp only [List.mem_map, exists_exists_and_eq_and]
    rfl
  have hlineage : s.outline.lineage = s.lineage.map Tree.outline := rfl
  have habove : s.outline.above = s.above.map Tree.outline := rfl
  have hname : s.isLiteralMethod = true →
      (s.outline.node.child? "name").isSome = (s.node.child? "name").isSome := by
    intro hm
    have hk : s.node.label.kind ≠ .other := by
      have hmethod : s.kind = .method := by
        rw [isLiteralMethod, Bool.and_eq_true, beq_iff_eq] at hm
        exact hm.1
      rw [← Site.kind, hmethod]
      decide
    rw [Site.outline, Tree.child?_outline hk, Option.isSome_map]
  constructor
  · rintro ⟨hwithin, haround⟩
    simp only [hrecords, constantProperty?_outline, addsName_outline, isLiteralMethod_outline,
      hlineage, habove, htypes] at hwithin haround
    exact ⟨hwithin, fun hm hn => haround hm (hname hm ▸ hn)⟩
  · rintro ⟨hwithin, haround⟩
    constructor
    · simpa only [hrecords, constantProperty?_outline, addsName_outline, hlineage, htypes]
        using hwithin
    · intro hm hn
      rw [isLiteralMethod_outline] at hm
      rw [habove, htypes]
      exact haround hm (hname hm ▸ hn)

end Site

namespace Job

variable {job : Job} {s : Site} {types : List String}

theorem scopeIds_ne_nil_iff {ts : List Tree} :
    job.scopeIds ts ≠ [] ↔ ∃ t ∈ ts, job.opens t.label = true := by
  rw [scopeIds, ne_eq, List.map_eq_nil_iff, List.filter_eq_nil_iff]
  push Not
  rfl

/-- The scopes that a site has in view when it records something. -/
theorem map_scopes_mention? (job : Job) (s : Site) :
    (job.mention? s).map (·.scopes) =
      if s.isLiteralMethod then (s.node.child? "name").map fun _ => job.scopeIds s.above
      else if s.recordsItself || s.constantProperty?.isSome then some (job.scopeIds s.lineage)
      else none := by
  unfold mention? Site.isLiteralMethod Site.recordsItself Site.constantProperty?
  cases hk : s.kind with
  | memberAccess =>
    cases s.node.property?.filter fun q => decide (q.label.kind = .literal) <;> simp [mentionAt]
  | method =>
    cases s.isIn .objectLiteral with
    | true => cases s.node.child? "name" <;> simp [mentionAt]
    | false => simp
  | identifier =>
    cases hprop : s.isPart "property" .memberAccess with
    | true =>
      obtain ⟨q, hq, -⟩ := Site.exists_parent_of_isPart hprop
      simp [hq, Site.isMethodName_of_property hprop, mentionAt]
    | false => cases s.isMethodName <;> simp [mentionAt]
  | _ => simp

/-- **A site finds the scopes it needs just when it is covered.** -/
theorem grounded_iff_covered
    (hopen : ∀ t ∈ s.lineage, job.opens t.label = true ↔ t.label.type ∈ types) :
    job.Grounded s ↔ s.Covered types := by
  have hlineage : job.scopeIds s.lineage ≠ [] ↔ ∃ t ∈ s.lineage, t.label.type ∈ types := by
    rw [scopeIds_ne_nil_iff]
    exact exists_congr fun t => and_congr_right (hopen t)
  have habove : job.scopeIds s.above ≠ [] ↔ ∃ t ∈ s.above, t.label.type ∈ types := by
    rw [scopeIds_ne_nil_iff]
    exact exists_congr fun t => and_congr_right fun ht => hopen t (List.mem_cons_of_mem _ ht)
  have hscopes : (∀ m, job.mention? s = some m → m.scopes ≠ []) ↔
      ∀ ids, (job.mention? s).map (·.scopes) = some ids → ids ≠ [] := by
    simp only [Option.map_eq_some_iff]
    exact ⟨fun h ids ⟨m, hm, he⟩ => he ▸ h m hm, fun h m hm => h _ ⟨m, hm, rfl⟩⟩
  have hname : job.literalName? s ≠ none ↔ s.addsName = true := by
    rw [← isSome_literalName?, Option.isSome_iff_ne_none]
  rw [Grounded, hscopes, map_scopes_mention?, hname, hlineage]
  -- a method of an object literal neither records itself nor adds a name
  cases hm : s.isLiteralMethod with
  | true =>
    have hk : s.kind = .method := by
      rw [Site.isLiteralMethod, Bool.and_eq_true, beq_iff_eq] at hm
      exact hm.1
    have hother : s.recordsItself = false ∧ s.constantProperty? = none ∧ s.addsName = false := by
      simp [Site.recordsItself, Site.constantProperty?, Site.addsName, hk]
    cases hc : s.node.child? "name" with
    | none =>
      refine iff_of_true ⟨by simp, by simp [hother]⟩ ⟨by simp [hother], by simp [hc]⟩
    | some n =>
      constructor
      · rintro ⟨h, -⟩
        exact ⟨by simp [hother], fun _ _ => habove.mp (h _ rfl)⟩
      · intro h
        refine ⟨?_, by simp [hother]⟩
        intro ids hids
        rw [← Option.some.inj hids]
        exact habove.mpr (h.around hm (by simp [hc]))
  | false =>
    cases hr : s.recordsItself || s.constantProperty?.isSome with
    | true =>
      constructor
      · rintro ⟨h, -⟩
        exact ⟨fun _ => hlineage.mp (h _ rfl), by simp [hm]⟩
      · intro h
        have hneeds : s.recordsItself = true ∨ s.constantProperty?.isSome = true ∨
            s.addsName = true := (Bool.or_eq_true _ _ ▸ hr).imp_right .inl
        have hin := h.within hneeds
        refine ⟨?_, fun _ => hin⟩
        intro ids hids
        rw [← Option.some.inj hids]
        exact hlineage.mpr hin
    | false =>
      have hr' : s.recordsItself = false ∧ s.constantProperty?.isSome = false := by simpa using hr
      constructor
      · rintro ⟨-, h⟩
        exact ⟨by simpa [hr'] using h, by simp [hm]⟩
      · intro h
        exact ⟨by simp, fun hn => h.within (.inr (.inr hn))⟩

/-- A tree without an index is one whose walk stops. -/
theorem exists_stop_of_indexTree {tree : Tree} {failure : Failure}
    (h : (job.indexTree tree).result = .error failure) :
    ∃ stop, Pass.run job tree = .error stop ∧ failure = stop.failure := by
  rw [indexTree] at h
  cases hrun : Pass.run job tree with
  | ok p =>
    rw [hrun] at h
    cases h
  | error stop =>
    rw [hrun] at h
    cases h
    exact ⟨stop, rfl, rfl⟩

/-- A walk that stops does so for want of a scope, if nodes close the scopes they open.
-/
theorem run_want {tree : Tree} {stop : Stop} (hclose : job.closes = job.opens)
    (h : Pass.run job tree = .error stop) :
    ∃ fault : ScopeFault, fault.isWant = true ∧
      stop.failure = .ofCause job.path (.scope fault) := by
  have htight : ∀ f, ¬ job.Leaks f := by
    rintro f ⟨l, -, -, ho, hc⟩
    rw [hclose, ho] at hc
    cases hc
  rcases run_stop h with hwant | ⟨s, -, q, hends, -, hleave⟩ | ⟨p, hp, hdepth, -⟩
  · exact hwant
  · -- every node can be left
    obtain ⟨q', hq'⟩ := hends.leave_eq_ok (htight _) (congrFun hclose _)
    rw [hleave] at hq'
    cases hq'
  · -- nothing is left open
    have howners := (across_owners_eq_iff tree.numberedFrom_numbered job.tracks_start hp).mpr
      (htight _)
    rw [← p.stack.length_owners, howners] at hdepth
    exact absurd rfl hdepth

end Job

/-! ### Trees of a document -/

namespace Document

variable {source : Source} {tree : Tree} {path marker : String} {tolerant : Bool}
  {types : List String}

/-- An index is returned just when every site is covered. -/
theorem exists_indexTree_iff :
    (∃ scopes, (indexTree source tree path ⟨tolerant, marker, .ofTypes types⟩).result =
        .ok scopes) ↔ ∀ s ∈ tree.sites, s.Covered types := by
  let job := Job.ofRules source path ⟨tolerant, marker, .ofTypes types⟩
  have hgrounded : ∀ s ∈ tree.numbered.sites, job.Grounded s ↔ s.Covered types := by
    intro s hs
    refine Job.grounded_iff_covered fun t ht => ?_
    have hn := Forest.named_of_mem_sites _ hs (by simp) t ht
    change (Boundary.ofTypes types).opens t.label = true ↔ _
    rw [Boundary.opens_of_named _ hn, List.contains_iff_mem]
    rfl
  have hsettles : Pass.Settles job _ _ (Pass.run job tree) :=
    Job.run_settles tree fun _ _ _ => rfl
  rw [← Tree.forall_sites_numbered (Site.covered_outline types), ← forall₂_congr hgrounded]
  change (∃ scopes, (job.indexTree tree).result = .ok scopes) ↔ _
  rw [Job.indexTree]
  cases hrun : Pass.run job tree with
  | ok p =>
    rw [hrun] at hsettles
    exact iff_of_true ⟨_, rfl⟩ hsettles.1
  | error stop =>
    rw [hrun] at hsettles
    exact iff_of_false (by simp) hsettles.1

/-- A tree whose root opens a scope has an index. -/
theorem exists_indexTree_of_root (hn : tree.label.named = true) (htype : tree.label.type ∈ types) :
    ∃ scopes, (indexTree source tree path ⟨tolerant, marker, .ofTypes types⟩).result =
      .ok scopes := by
  refine exists_indexTree_iff.mpr fun s hs => ?_
  rw [Tree.sites_eq_cons hn, List.mem_cons] at hs
  rcases hs with rfl | hs
  · -- the root has no parent
    have hmethod : Site.isLiteralMethod ⟨tree, []⟩ = false := by
      simp [Site.isLiteralMethod, Site.isIn, Site.parent?]
    exact ⟨fun _ => ⟨tree, List.mem_cons_self, htype⟩, by simp [hmethod]⟩
  · have hroot := (Forest.suffix_above_of_mem_sites _ hs).subset List.mem_cons_self
    exact Site.covered_of_mem_above hroot htype

/-- **Which trees have an index, and how the others fail.**  A tree has one just when
every identifier that is recorded, every access to a constant property and every literal
that adds a name is a scope or stands in one, and every named method of an object
literal stands in one besides its own.  The only failure is that a scope is wanting.  In
particular a tree has an index if its root opens a scope. -/
theorem indexTree_outcome (source : Source) (tree : Tree) (path marker : String) (tolerant : Bool)
    (types : List String) :
    let outcome := indexTree source tree path ⟨tolerant, marker, .ofTypes types⟩
    ((∃ scopes, outcome.result = .ok scopes) ↔ ∀ s ∈ tree.sites, s.Covered types) ∧
      (∀ failure, outcome.result = .error failure →
        ∃ fault : ScopeFault, fault.isWant = true ∧ failure = .ofCause path (.scope fault)) ∧
      (tree.label.named = true → tree.label.type ∈ types →
        ∃ scopes, outcome.result = .ok scopes) := by
  intro outcome
  refine ⟨exists_indexTree_iff, ?_, ?_⟩
  · intro failure hfail
    obtain ⟨stop, hstop, rfl⟩ := Job.exists_stop_of_indexTree hfail
    exact Job.run_want rfl hstop
  · exact exists_indexTree_of_root

end Document
end ScopeIndex
