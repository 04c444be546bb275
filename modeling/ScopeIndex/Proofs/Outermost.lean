import Mathlib
import ScopeIndex.Proofs.Coverage

/-!
# Names in the outermost scope

Where no scope but that of the root is in view of a name, there is nothing to choose: the
scope of the root takes every name in turn, under the path that the object literals
around it give.  Neither scopes nor numbers matter then, and the table of the root can be
read off the tree as the parser delivered it.

## Main definitions

* `Job.literalNames` — the names that the object literals of a lineage give.
* `Job.posting?` — what a site records, and how many scopes it has in view.

## Main results

* `Job.mention?_of_lone` — a site with one scope in view is recorded in that scope.
* `Job.reading_of_lone` — the scopes of a tree whose names are all in the outermost one.
-/

namespace ScopeIndex

/-- What a site records. -/
structure Posting where
  /-- How many scopes are around it. -/
  depth : Nat
  /-- The path it stands for. -/
  path : String
  /-- Its bytes. -/
  span : Span
  deriving DecidableEq, Repr

namespace Job

variable (job : Job)

/-- The names that the object literals of a lineage give, outermost first. -/
def literalNames : List Tree → List String
  | [] => []
  | t :: ts => literalNames ts ++ (job.literalName? ⟨t, ts⟩).toList

/-- What a site records, under the names of all object literals around it. -/
def posting? (s : Site) : Option Posting :=
  (job.saying? s).map fun y =>
    { depth := s.lineage.countP fun t => job.opens t.label
      path := SymbolPath.join (job.literalNames s.lineage) y.name
      span := y.span }

theorem literalNames_outline (ts : List Tree) :
    job.literalNames (ts.map Tree.outline) = job.literalNames ts := by
  induction ts with
  | nil => rfl
  | cons t ts ih =>
    have hname : job.literalName? ⟨t.outline, ts.map Tree.outline⟩ = job.literalName? ⟨t, ts⟩ :=
      job.literalName?_outline ⟨t, ts⟩
    rw [List.map_cons, literalNames, literalNames, ih, hname]

variable {job} (hid : ∀ l i, job.opens { l with id := i } = job.opens l)
include hid

theorem posting?_outline (s : Site) : job.posting? s.outline = job.posting? s := by
  have hlineage : s.outline.lineage = s.lineage.map Tree.outline := rfl
  have hdepth : (s.lineage.map Tree.outline).countP (fun t => job.opens t.label) =
      s.lineage.countP fun t => job.opens t.label := by
    rw [List.countP_map]
    exact List.countP_congr fun t _ => by rw [Function.comp, Tree.outline, hid]
  simp only [posting?, saying?_outline, hlineage, literalNames_outline, hdepth]

/-- What sites record does not depend on numbers. -/
theorem postings_numbered (tree : Tree) :
    tree.numbered.sites.filterMap job.posting? = tree.sites.filterMap job.posting? := by
  refine Tree.filterMap_sites_numbered tree fun s => ?_
  rw [← posting?_outline hid s.bare, Site.outline_bare, posting?_outline hid]

omit hid

/-! ### One scope in view -/

/-- Below the root, where nothing else opens a scope, the scope of the root is the only
one, and all literals are read in it. -/
theorem scopeIds_of_lone {root : Tree} (ho : job.opens root.label = true) {ts : List Tree}
    (h : ∀ t ∈ ts, job.opens t.label = false) :
    job.scopeIds (ts ++ [root]) = [root.label.id] ∧
      job.contextOf (some root.label.id) (ts ++ [root]) = job.literalNames (ts ++ [root]) := by
  induction ts with
  | nil =>
    have hids : job.scopeIds [root] = [root.label.id] := job.scopeIds_cons_of_opens [] ho
    exact ⟨hids, by simp [contextOf, literalNames, hids]⟩
  | cons t ts ih =>
    obtain ⟨ht, hts⟩ := List.forall_mem_cons.mp h
    obtain ⟨hids, hcontext⟩ := ih hts
    have hids' : job.scopeIds (t :: (ts ++ [root])) = [root.label.id] :=
      (job.scopeIds_cons_of_not_opens _ ht).trans hids
    refine ⟨hids', ?_⟩
    rw [List.cons_append, contextOf, literalNames, hcontext, hids', List.head?_cons, if_pos rfl]

/-- A site that does not look at its own scope has a parent. -/
theorem above_ne_nil_of_outside {s : Site} {y : Saying} (h : job.saying? s = some y)
    (ho : y.outside = true) : s.above ≠ [] := by
  intro hnil
  have hin : ∀ kind, s.isIn kind = false := fun kind => by simp [Site.isIn, Site.parent?, hnil]
  unfold saying? at h
  split at h
  · obtain ⟨q, -, rfl⟩ := Option.map_eq_some_iff.mp h
    cases ho
  · rw [hin] at h
    cases h
  · split at h
    · obtain ⟨q, -, rfl⟩ := Option.map_eq_some_iff.mp h
      cases ho
    · split at h
      · cases h
      · cases h
        cases ho
  · cases h

/-- **A site with one scope in view** is recorded in that scope. -/
theorem mention?_of_lone {root : Tree} {s : Site} {ts : List Tree}
    (ho : job.opens root.label = true) (hs : s.lineage = ts ++ [root])
    (hlone : ∀ e, job.posting? s = some e → e.depth = 1) {m : Mention}
    (hm : job.mention? s = some m) :
    m.scopes = [root.label.id] ∧ job.posting? s = some ⟨1, m.path, m.span⟩ := by
  rw [mention?_eq_map_saying?] at hm
  obtain ⟨y, hy, rfl⟩ := Option.map_eq_some_iff.mp hm
  have hposting : job.posting? s = some ⟨s.lineage.countP fun t => job.opens t.label,
      SymbolPath.join (job.literalNames s.lineage) y.name, y.span⟩ := by
    rw [posting?, hy]
    rfl
  have hdepth : (s.lineage.countP fun t => job.opens t.label) = 1 := hlone _ hposting
  -- the root is the one that opens a scope
  have hclear : ∀ t ∈ ts, job.opens t.label = false := by
    rw [hs, List.countP_append, List.countP_singleton, if_pos ho] at hdepth
    simpa using List.countP_eq_zero.mp (by omega : (ts.countP fun t => job.opens t.label) = 0)
  obtain ⟨hids, hcontext⟩ := scopeIds_of_lone ho hclear
  have hscopes : job.scopeIds (if y.outside then s.above else s.lineage) = [root.label.id] := by
    cases hout : y.outside with
    | false => rwa [if_neg Bool.false_ne_true, hs]
    | true =>
      -- the root is above the site
      rw [if_pos rfl]
      cases ts with
      | nil => exact absurd (List.cons.inj hs).2 (above_ne_nil_of_outside hy hout)
      | cons t ts =>
        rw [(List.cons.inj hs).2]
        exact (scopeIds_of_lone ho (List.forall_mem_cons.mp hclear).2).1
  refine ⟨hscopes, ?_⟩
  rw [hposting, hdepth, mentionOf, mentionAt, hscopes, List.head?_cons, hs, hcontext]

end Job

/-! ### One table -/

/-- The table with some more occurrences. -/
def SymbolTable.addAll (t : SymbolTable) (es : List Posting) : SymbolTable :=
  es.foldl (fun t e => t.add e.path e.span) t

namespace Mention

variable {k : Nat}

/-- A mention in the outermost scope. -/
def posted (m : Mention) : Posting := ⟨1, m.path, m.span⟩

/-- A mention that has one scope in view goes there. -/
theorem place_of_lone {m : Mention} (h : m.scopes = [k]) (tables : Nat → SymbolTable) :
    place tables m = fun i => if i = k then (tables k).add m.path m.span else tables i := by
  have htarget : m.target? tables = some k := by
    rw [target?, h, List.head?_cons]
    split
    · rfl
    · cases hf : [k].find? fun i => (tables i).contains m.path with
      | none => rfl
      | some i =>
        have hi : i ∈ [k] := List.mem_of_find?_eq_some hf
        rw [List.mem_singleton.mp hi]
        rfl
  funext i
  rw [place, htarget]
  by_cases hi : i = k
  · simp [hi]
  · simp [hi, Ne.symm hi]

/-- The tables that mentions with one scope in view fill. -/
theorem foldl_of_lone {ms : List Mention} (h : ∀ m ∈ ms, m.scopes = [k]) :
    ∀ tables : Nat → SymbolTable, ms.foldl place tables = fun i =>
      if i = k then (tables k).addAll (ms.map posted) else tables i := by
  induction ms with
  | nil =>
    intro tables
    funext i
    by_cases hi : i = k <;> simp [hi, SymbolTable.addAll]
  | cons m ms ih =>
    intro tables
    obtain ⟨hm, hms⟩ := List.forall_mem_cons.mp h
    rw [List.foldl_cons, place_of_lone hm, ih hms]
    funext i
    by_cases hi : i = k <;> simp [hi, SymbolTable.addAll, posted]

end Mention

/-! ### Trees -/

/-- The root is the last of every lineage. -/
theorem Tree.exists_lineage_eq {t : Tree} (hn : t.label.named = true) {s : Site}
    (hs : s ∈ t.sites) : ∃ ts, s.lineage = ts ++ [t] := by
  rw [sites_eq_cons hn, List.mem_cons] at hs
  rcases hs with rfl | hs
  · exact ⟨[], rfl⟩
  · obtain ⟨between, hbetween⟩ := Forest.suffix_above_of_mem_sites _ hs
    exact ⟨s.node :: between, by rw [Site.lineage, ← hbetween]; rfl⟩

namespace Job

variable {job : Job} {tree : Tree}

/-- If all names are in the outermost scope, its table holds them and the others nothing. -/
theorem tables_of_lone (hid : ∀ l i, job.opens { l with id := i } = job.opens l)
    (hn : tree.label.named = true) (ho : job.opens tree.label = true)
    (hlone : ∀ e ∈ tree.sites.filterMap job.posting?, e.depth = 1) :
    job.tables tree.numbered.sites = fun i => if i = 1 then
      SymbolTable.empty.addAll (tree.sites.filterMap job.posting?) else {} := by
  have hopen : job.opens tree.numbered.label = true := (hid tree.label 1).trans ho
  rw [← postings_numbered hid] at hlone ⊢
  -- every mention goes to the scope of the root
  have hmention : ∀ s ∈ tree.numbered.sites, ∀ m, job.mention? s = some m →
      m.scopes = [1] ∧ job.posting? s = some m.posted := by
    intro s hs m hm
    obtain ⟨ts, hts⟩ := Tree.exists_lineage_eq (t := tree.numbered) hn hs
    exact mention?_of_lone hopen hts
      (fun e he => hlone e (List.mem_filterMap.mpr ⟨s, hs, he⟩)) hm
  have hposted : (job.mentions tree.numbered.sites).map Mention.posted =
      tree.numbered.sites.filterMap job.posting? := by
    rw [mentions, List.map_filterMap]
    refine List.filterMap_congr fun s hs => ?_
    cases hm : job.mention? s with
    | some m => exact ((hmention s hs m hm).2).symm
    | none =>
      rw [mention?_eq_map_saying?, Option.map_eq_none_iff] at hm
      simp [posting?, hm]
  rw [← hposted, tables]
  refine Mention.foldl_of_lone (fun m hm => ?_) _
  obtain ⟨s, hs, hsm⟩ := List.mem_filterMap.mp hm
  exact (hmention s hs m hsm).1

/-- **The scopes of a tree whose names are all in the outermost scope.** -/
theorem reading_of_lone (hid : ∀ l i, job.opens { l with id := i } = job.opens l)
    (hn : tree.label.named = true) (ho : job.opens tree.label = true)
    (hlone : ∀ e ∈ tree.sites.filterMap job.posting?, e.depth = 1) :
    ∃ others, job.reading tree =
        { type := tree.label.type, span := tree.label.span, depth := 0
          symbols := (SymbolTable.empty.addAll (tree.sites.filterMap job.posting?)).entries } ::
            others ∧
      ∀ scope ∈ others, scope.symbols = [] := by
  have hopen : job.opens tree.numbered.label = true := (hid tree.label 1).trans ho
  have htables := tables_of_lone hid hn ho hlone
  have hsites : tree.numbered.sites =
      ⟨tree.numbered, []⟩ :: tree.numbered.children.sites [tree.numbered] :=
    Tree.sites_eq_cons hn
  refine ⟨(job.scopeSites (tree.numbered.children.sites [tree.numbered])).map
    (job.scopeAt (job.tables tree.numbered.sites)), ?_, ?_⟩
  · have hscopes : job.scopeSites tree.numbered.sites =
        ⟨tree.numbered, []⟩ :: job.scopeSites (tree.numbered.children.sites [tree.numbered]) := by
      rw [hsites]
      exact List.filter_cons_of_pos (p := fun s : Site => job.opens s.node.label) hopen
    have hroot : job.scopeAt (job.tables tree.numbered.sites) ⟨tree.numbered, []⟩ =
        { type := tree.label.type, span := tree.label.span, depth := 0
          symbols := (SymbolTable.empty.addAll (tree.sites.filterMap job.posting?)).entries } := by
      rw [htables]
      rfl
    rw [reading_eq_map, hscopes, List.map_cons, hroot]
  · intro scope hscope
    obtain ⟨s, hs, rfl⟩ := List.mem_map.mp hscope
    -- the other scopes have other numbers
    have hnodup := tree.nodup_sites_numbered
    rw [hsites, List.map_cons, List.nodup_cons] at hnodup
    have hne : s.id ≠ 1 := fun h =>
      hnodup.1 (List.mem_map.mpr ⟨s, List.mem_of_mem_filter hs, h⟩)
    rw [scopeAt, htables]
    simp [hne]

end Job

end ScopeIndex
