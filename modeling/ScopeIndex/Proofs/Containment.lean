import Mathlib
import ScopeIndex.Proofs.Accounting
import ScopeIndex.Proofs.Coverage

/-!
# Scopes hold what lies in them

In a tree whose nodes lie within their parents, a node lies within all nodes of its
lineage.  A mention has scopes of its lineage in view and goes to one of them, so what a
scope holds lies within the scope, however far out it has travelled.

Scopes are listed in pre-order, and between a scope and the scopes below it stand no
others: going back from a scope in the list, the first one that is less deep by one is the
scope around it.

## Main definitions

* `Span.Within` — one range lies within another.
* `Forest.FitsIn`, `Tree.Fits` — nodes lie within their parents.
* `Job.Enclosed` — the scope around a site of a list is the nearest one before it that is
  less deep by one.

## Main results

* `Tree.Fits.of_mem_sites` — a site lies within its lineage.
* `Mention.forall_mem_spans_foldl` — what is true of mentions is true of tables.
* `Job.enclosed_scopeSites` — the scopes of a row, in pre-order.
* `Job.indexTree_contained` — the ranges of an index are nested.
-/

namespace ScopeIndex

/-! ### Ranges in one another -/

/-- The first range lies within the second. -/
def Span.Within (inner outer : Span) : Prop :=
  outer.start ≤ inner.start ∧ inner.stop ≤ outer.stop

instance (inner outer : Span) : Decidable (inner.Within outer) :=
  inferInstanceAs (Decidable (_ ∧ _))

theorem Span.Within.refl (s : Span) : s.Within s := ⟨le_rfl, le_rfl⟩

theorem Span.Within.trans {s t u : Span} (hst : s.Within t) (htu : t.Within u) : s.Within u :=
  ⟨htu.1.trans hst.1, hst.2.trans htu.2⟩

/-- The nodes of the row lie within `outer`, and those below each of them within it. -/
def Forest.FitsIn (outer : Span) : Forest → Prop
  | nil => True
  | cons l kids rest => l.span.Within outer ∧ kids.FitsIn l.span ∧ rest.FitsIn outer

instance Forest.decidableFitsIn : ∀ (outer : Span) (f : Forest), Decidable (f.FitsIn outer)
  | _, nil => inferInstanceAs (Decidable True)
  | outer, cons l kids rest =>
      have := decidableFitsIn l.span kids
      have := decidableFitsIn outer rest
      inferInstanceAs (Decidable (_ ∧ _ ∧ _))

/-- Every child of every node lies within its parent. -/
def Tree.Fits (t : Tree) : Prop := t.children.FitsIn t.label.span

instance (t : Tree) : Decidable t.Fits := inferInstanceAs (Decidable (t.children.FitsIn _))

namespace Forest.FitsIn

variable {f : Forest} {outer : Span}

theorem numbered (h : f.FitsIn outer) : ∀ n, (f.numbered n).FitsIn outer := by
  induction f generalizing outer with
  | nil => intro n; trivial
  | cons l kids rest ihk ihr =>
    obtain ⟨hl, hk, hr⟩ := h
    intro n
    exact ⟨hl, ihk hk _, ihr hr _⟩

theorem within_of_child? {field : String} {t : Tree} (h : f.FitsIn outer)
    (ht : f.child? field = some t) : t.label.span.Within outer := by
  induction f with
  | nil => cases ht
  | cons l kids rest _ ihr =>
    obtain ⟨hl, -, hr⟩ := h
    rw [child?] at ht
    split at ht
    · cases ht
      exact hl
    · exact ihr hr ht

/-- A site lies within `outer` and within its lineage up to the row, and what is below it
lies within the site. -/
theorem of_mem_sites (h : f.FitsIn outer) {above : List Tree} {s : Site}
    (hs : s ∈ f.sites above) :
    s.node.Fits ∧ s.node.label.span.Within outer ∧
      ∀ t ∈ s.above, t ∈ above ∨ s.node.label.span.Within t.label.span := by
  induction f generalizing outer above with
  | nil => cases hs
  | cons l kids rest ihk ihr =>
    obtain ⟨hl, hk, hr⟩ := h
    cases hn : l.named with
    | true =>
      rw [sites_cons_of_named hn, List.cons_append, List.mem_cons, List.mem_append] at hs
      rcases hs with rfl | hs | hs
      · exact ⟨hk, hl, fun t ht => .inl ht⟩
      · obtain ⟨hfits, hin, habove⟩ := ihk hk hs
        refine ⟨hfits, hin.trans hl, fun t ht => ?_⟩
        rcases habove t ht with ht | ht
        · rcases List.mem_cons.mp ht with rfl | ht
          · exact .inr hin
          · exact .inl ht
        · exact .inr ht
      · exact ihr hr hs
    | false =>
      rw [sites_cons_of_anonymous hn, List.mem_append] at hs
      rcases hs with hs | hs
      · obtain ⟨hfits, hin, habove⟩ := ihk hk hs
        exact ⟨hfits, hin.trans hl, habove⟩
      · exact ihr hr hs

end Forest.FitsIn

theorem Tree.Fits.numbered {t : Tree} (h : t.Fits) : t.numbered.Fits :=
  Forest.FitsIn.numbered h 2

/-- A site of a tree lies within its lineage, and what is below it within the site. -/
theorem Tree.Fits.of_mem_sites {t : Tree} (h : t.Fits) {s : Site} (hs : s ∈ t.sites) :
    s.node.Fits ∧ ∀ u ∈ s.lineage, s.node.label.span.Within u.label.span := by
  have hrow : t.toForest.FitsIn t.label.span := ⟨.refl _, h, trivial⟩
  obtain ⟨hfits, -, habove⟩ := hrow.of_mem_sites hs
  refine ⟨hfits, List.forall_mem_cons.mpr ⟨.refl _, fun u hu => ?_⟩⟩
  rcases habove u hu with hnil | hu
  · cases hnil
  · exact hu

/-- What a site records lies within its node: the node itself, or a child of it. -/
theorem Site.within_of_recorded? {s : Site} {span : Span} (hfits : s.node.Fits)
    (h : s.recorded? = some span) : span.Within s.node.label.span := by
  have hchild : ∀ {field : String} {t : Tree}, s.node.child? field = some t →
      t.label.span.Within s.node.label.span := fun ht => hfits.within_of_child? ht
  unfold recorded? at h
  cases hk : s.kind with
  | memberAccess =>
    simp only [hk, constantProperty?, if_true] at h
    obtain ⟨q, hq, rfl⟩ := Option.map_eq_some_iff.mp h
    exact hchild (Option.filter_eq_some_iff.mp hq).1
  | method =>
    simp only [hk] at h
    split at h
    · obtain ⟨n, hn, rfl⟩ := Option.map_eq_some_iff.mp h
      exact hchild hn
    · cases h
  | identifier =>
    simp only [hk] at h
    split at h
    · cases h
    · cases h
      exact .refl _
  | _ => simp [hk] at h

/-! ### What scopes hold -/

namespace Mention

variable {m : Mention} {tables : Nat → SymbolTable} {k : Nat}

theorem mem_scopes_of_target? (h : m.target? tables = some k) : k ∈ m.scopes := by
  have hne : m.scopes ≠ [] := by
    intro hnil
    simp [target?, hnil] at h
  obtain ⟨j, hj, htarget⟩ := exists_target? hne tables
  rw [htarget] at h
  cases h
  exact hj

/-- A mention adds its own range, to a table of a scope that it has in view. -/
theorem mem_spans_place {span : Span} (h : span ∈ (place tables m k).spans) :
    span ∈ (tables k).spans ∨ k ∈ m.scopes ∧ span = m.span := by
  unfold place at h
  split at h
  · next htarget =>
    rw [SymbolTable.spans_add, Multiset.mem_cons] at h
    rcases h with rfl | h
    · exact .inr ⟨mem_scopes_of_target? htarget, rfl⟩
    · exact .inl h
  · exact .inl h

/-- What is true of the ranges of mentions, for each scope they have in view, is true of
the ranges in the tables that they fill. -/
theorem forall_mem_spans_foldl {Q : Nat → Span → Prop} (ms : List Mention) :
    ∀ tables : Nat → SymbolTable, (∀ k, ∀ span ∈ (tables k).spans, Q k span) →
      (∀ m ∈ ms, ∀ k ∈ m.scopes, Q k m.span) →
      ∀ k, ∀ span ∈ (ms.foldl place tables k).spans, Q k span := by
  induction ms with
  | nil => intro tables htables _; exact htables
  | cons m ms ih =>
    intro tables htables hms
    obtain ⟨hm, hms⟩ := List.forall_mem_cons.mp hms
    refine ih (place tables m) ?_ hms
    intro k span hspan
    rcases mem_spans_place hspan with hspan | ⟨hk, rfl⟩
    · exact htables k span hspan
    · exact hm k hk

end Mention

theorem IndexedScope.mem_spans {s : IndexedScope} {e : String × List Occurrence} {o : Occurrence}
    (he : e ∈ s.symbols) (ho : o ∈ e.2) : o.span ∈ s.spans := by
  rw [spans, entrySpans, Multiset.mem_coe, List.mem_flatMap]
  exact ⟨e, he, List.mem_map_of_mem ho⟩

/-- Numbers tell the nodes of a tree apart, so a node of a lineage with the number of a
site is the node of that site. -/
theorem Tree.eq_node_of_id {tree : Tree} {r s : Site} (hr : r ∈ tree.numbered.sites)
    (hs : s ∈ tree.numbered.sites) {t : Tree} (ht : t ∈ r.lineage) (hid : t.label.id = s.id) :
    t = s.node := by
  rcases Forest.mem_lineage _ hr ht with hnil | ⟨u, hu, rfl⟩
  · cases hnil
  · rw [List.inj_on_of_nodup_map tree.nodup_sites_numbered hu hs hid]

namespace Job

variable {job : Job} {tree : Tree}

/-- **What a scope holds lies within the scope.** -/
theorem within_of_mem_spans (hfits : tree.Fits) {s : Site} (hs : s ∈ tree.numbered.sites) :
    ∀ span ∈ (job.tables tree.numbered.sites s.id).spans, span.Within s.node.label.span := by
  -- a number stands for the range of the site that has it
  let Q : Nat → Span → Prop := fun k span =>
    ∀ r ∈ tree.numbered.sites, r.id = k → span.Within r.node.label.span
  have hmentions : ∀ m ∈ job.mentions tree.numbered.sites, ∀ k ∈ m.scopes, Q k m.span := by
    intro m hm k hk r hr hrk
    obtain ⟨u, hu, hum⟩ := List.mem_filterMap.mp hm
    obtain ⟨t, ht, htk⟩ := List.mem_map.mp (scopes_subset_of_mention? hum hk)
    have htu : t ∈ u.lineage := (List.mem_filter.mp ht).1
    have hnode : t = r.node := Tree.eq_node_of_id hu hr htu (htk.trans hrk.symm)
    obtain ⟨hufits, hlineage⟩ := hfits.numbered.of_mem_sites hu
    have hspan : u.recorded? = some m.span := by
      rw [← Site.mention?_span job u, hum]
      rfl
    rw [← hnode]
    exact (Site.within_of_recorded? hufits hspan).trans (hlineage t htu)
  intro span hspan
  have hQ := Mention.forall_mem_spans_foldl (Q := Q) (job.mentions tree.numbered.sites)
    (fun _ => {}) (fun k span h => by simp [SymbolTable.spans, entrySpans] at h) hmentions
  exact hQ s.id span hspan s hs rfl

/-! ### The scope around a scope -/

variable (job)

/-- The number of scopes around a site. -/
def depthOf (s : Site) : Nat := (job.scopeIds s.above).length

/-- Each site of the list is of depth `d`, or the nearest one before it that is less deep
by one lies around it. -/
def Enclosed (d : Nat) (ss : List Site) : Prop :=
  ∀ before s after, ss = before ++ s :: after →
    job.depthOf s = d ∨
      ∃ u, (before.reverse.find? fun r => job.depthOf r + 1 = job.depthOf s) = some u ∧
        s.node.label.span.Within u.node.label.span

variable {job} {d : Nat} {ss ts : List Site}

theorem Enclosed.nil : job.Enclosed d [] := by
  intro before s after h
  simp at h

theorem Enclosed.append (hss : job.Enclosed d ss) (hts : job.Enclosed d ts) :
    job.Enclosed d (ss ++ ts) := by
  intro before s after h
  rcases List.append_eq_append_iff.mp h with ⟨between, rfl, hlast⟩ | ⟨between, rfl, hlast⟩
  · refine (hts between s after hlast).imp_right fun ⟨u, hu, hin⟩ => ⟨u, ?_, hin⟩
    rw [List.reverse_append, List.find?_append, hu, Option.some_or]
  · cases between with
    | nil =>
      rcases hts [] s after hlast.symm with hd | ⟨u, hu, -⟩
      · exact .inl hd
      · cases hu
    | cons r between =>
      obtain ⟨rfl, -⟩ := List.cons.inj hlast
      exact hss before s between rfl

/-- A scope around deeper ones that lie within it. -/
theorem Enclosed.cons {x : Site} (hx : job.depthOf x = d) (hss : job.Enclosed (d + 1) ss)
    (hdeep : ∀ s ∈ ss, d + 1 ≤ job.depthOf s)
    (hin : ∀ s ∈ ss, s.node.label.span.Within x.node.label.span) :
    job.Enclosed d (x :: ss) := by
  intro before s after h
  cases before with
  | nil =>
    obtain ⟨rfl, -⟩ := List.cons.inj h
    exact .inl hx
  | cons y before =>
    obtain ⟨rfl, rfl⟩ := List.cons.inj h
    refine .inr ?_
    rw [List.reverse_cons, List.find?_append]
    rcases hss before s after rfl with hs | ⟨u, hu, hus⟩
    · -- all before it are too deep, and so the search comes back to the scope itself
      have hnone : (before.reverse.find? fun r => job.depthOf r + 1 = job.depthOf s) = none := by
        rw [List.find?_eq_none]
        intro r hr
        have := hdeep r (List.mem_append_left _ (List.mem_reverse.mp hr))
        simp only [decide_eq_true_eq]
        omega
      refine ⟨x, ?_, hin s (by simp)⟩
      rw [hnone, Option.none_or, List.find?_singleton, if_pos (by simp [hx, hs])]
    · exact ⟨u, by rw [hu, Option.some_or], hus⟩

theorem length_scopeIds_le_depthOf {f : Forest} {above : List Tree} {s : Site}
    (hs : s ∈ job.scopeSites (f.sites above)) :
    (job.scopeIds above).length ≤ job.depthOf s := by
  have hsuffix := Forest.suffix_above_of_mem_sites f (List.mem_of_mem_filter hs)
  exact ((hsuffix.sublist.filter _).map _).length_le

/-- Along a row, the scope around a scope is the nearest one before it that is less deep by
one. -/
theorem enclosed_scopeSites (f : Forest) : ∀ {outer : Span} (above : List Tree), f.FitsIn outer →
    job.Enclosed (job.scopeIds above).length (job.scopeSites (f.sites above)) := by
  induction f with
  | nil => intro outer above _; exact .nil
  | cons l kids rest ihk ihr =>
    intro outer above h
    obtain ⟨-, hk, hr⟩ := h
    have hrest := ihr above hr
    cases hn : l.named with
    | false =>
      rw [Forest.sites_cons_of_anonymous hn, scopeSites_append]
      exact (ihk above hk).append hrest
    | true =>
      have hkids := ihk (⟨l, kids⟩ :: above) hk
      rw [Forest.sites_cons_of_named hn, scopeSites_append]
      refine Enclosed.append ?_ hrest
      cases ho : job.opens l with
      | false =>
        rw [scopeIds_cons_of_not_opens job above ho] at hkids
        rwa [scopeSites, List.filter_cons_of_neg (by simp [ho])]
      | true =>
        have hlength : (job.scopeIds (⟨l, kids⟩ :: above)).length =
            (job.scopeIds above).length + 1 := by
          rw [scopeIds_cons_of_opens job above ho, List.length_cons]
        rw [scopeSites, List.filter_cons_of_pos (by simp [ho])]
        refine Enclosed.cons rfl (hlength ▸ hkids) ?_ ?_
        · intro s hs
          rw [← hlength]
          exact length_scopeIds_le_depthOf hs
        · intro s hs
          exact (hk.of_mem_sites (List.mem_of_mem_filter hs)).2.1

/-- The scope around a scope of an index. -/
theorem exists_outer_of_reading (hfits : tree.Fits) {before after : List IndexedScope}
    {s : IndexedScope} (hsplit : job.reading tree = before ++ s :: after) (hs : 0 < s.depth) :
    ∃ outer, (before.reverse.find? fun r => r.depth = s.depth - 1) = some outer ∧
      s.span.Within outer.span := by
  rw [reading_eq_map] at hsplit
  obtain ⟨before', rest, hsites, rfl, hrest⟩ := List.map_eq_append_iff.mp hsplit
  obtain ⟨s', after', rfl, rfl, -⟩ := List.map_eq_cons_iff.mp hrest
  have hrow : tree.numbered.toForest.FitsIn tree.numbered.label.span :=
    ⟨.refl _, hfits.numbered, trivial⟩
  have hdepth : ∀ r : Site,
      (job.scopeAt (job.tables tree.numbered.sites) r).depth = job.depthOf r := fun _ => rfl
  rcases enclosed_scopeSites _ [] hrow before' s' after' hsites with hzero | ⟨u, hu, hin⟩
  · rw [hdepth, hzero] at hs
    exact absurd hs (lt_irrefl _)
  · refine ⟨job.scopeAt (job.tables tree.numbered.sites) u, ?_, hin⟩
    rw [← List.map_reverse, List.find?_map]
    have hsame : ((fun r : IndexedScope => decide (r.depth =
        (job.scopeAt (job.tables tree.numbered.sites) s').depth - 1)) ∘
          job.scopeAt (job.tables tree.numbered.sites)) =
        fun r => decide (job.depthOf r + 1 = job.depthOf s') := by
      funext r
      rw [Function.comp_apply, hdepth, hdepth, decide_eq_decide]
      omega
    rw [hsame, hu]
    rfl

/-- **Ranges are nested as scopes are.**  In a tree whose nodes lie within their parents,
whatever decides on scopes, all that a scope holds lies within the scope, and a scope that
is not outermost lies within the nearest one before it that is less deep by one. -/
theorem indexTree_contained (job : Job) (tree : Tree) (scopes : List IndexedScope)
    (hfits : tree.Fits) (h : (job.indexTree tree).result = .ok scopes) :
    (∀ s ∈ scopes, ∀ e ∈ s.symbols, ∀ o ∈ e.2,
        s.span.start ≤ o.span.start ∧ o.span.stop ≤ s.span.stop) ∧
      ∀ before s after, scopes = before ++ s :: after → 0 < s.depth →
        ∃ outer, (before.reverse.find? fun r => r.depth = s.depth - 1) = some outer ∧
          outer.span.start ≤ s.span.start ∧ s.span.stop ≤ outer.span.stop := by
  obtain ⟨-, rfl⟩ := indexTree_settled h
  constructor
  · intro s hs e he o ho
    rw [reading_eq_map] at hs
    obtain ⟨r, hr, rfl⟩ := List.mem_map.mp hs
    exact within_of_mem_spans hfits (List.mem_of_mem_filter hr) o.span
      (IndexedScope.mem_spans he ho)
  · intro before s after hsplit hdepth
    exact exists_outer_of_reading hfits hsplit hdepth

theorem indexTree_contained_sample :
    Sample.tree.Fits ∧
      ((Job.ofRules Sample.source "o.js" ⟨false, "?", .ofTypes Sample.types⟩).indexTree
        Sample.tree).result = .ok Sample.scopes ∧
      (∀ s ∈ Sample.scopes, ∀ e ∈ s.symbols, ∀ o ∈ e.2,
        s.span.start ≤ o.span.start ∧ o.span.stop ≤ s.span.stop) ∧
      ∀ before s after, Sample.scopes = before ++ s :: after → 0 < s.depth →
        ∃ outer, (before.reverse.find? fun r => r.depth = s.depth - 1) = some outer ∧
          outer.span.start ≤ s.span.start ∧ s.span.stop ≤ outer.span.stop := by
  have hfits : Sample.tree.Fits := by decide
  exact ⟨hfits, Sample.indexTree_eq, indexTree_contained _ _ _ hfits Sample.indexTree_eq⟩

end Job
end ScopeIndex
