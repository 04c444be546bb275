import Mathlib
import ScopeIndex.Proofs.Coverage
import ScopeIndex.Proofs.Holes

/-!
# Scopes keep to themselves

What stands below a node that opens a scope does not interfere with the scopes around
the node.  Taking the children of the node away changes neither whether there is an
index nor which paths the scopes around it hold; the only difference is that uses which
stand below the node, and which the scopes around it have taken, are missing.

## Main definitions

* `Thinned`, `IndexedScope.Thinned` — uses are missing, and nothing else.
* `Hole.around` — the scopes around an open place.

## Main results

* `Mention.Secluded.place_twin`, `Mention.Secluded.place_inner` — one mention around the
  node, or below it.
* `Document.indexTree_secluded` — **the body of a node that opens a scope does not
  interfere with the scopes around it.**
-/

namespace ScopeIndex

/-! ### Missing uses -/

/-- The second list is the first without some occurrences that do not declare. -/
structure Thinned (os os' : List Occurrence) : Prop where
  /-- Nothing is added or moved. -/
  sublist : os'.Sublist os
  /-- All that declare are there. -/
  declaring : os'.filter (·.declaring) = os.filter (·.declaring)

namespace Thinned

variable {os os' : List Occurrence}

theorem refl (os : List Occurrence) : Thinned os os := ⟨.refl os, rfl⟩

theorem concat (h : Thinned os os') (o : Occurrence) : Thinned (os ++ [o]) (os' ++ [o]) :=
  ⟨h.sublist.append (.refl _), by rw [List.filter_append, List.filter_append, h.declaring]⟩

theorem concat_left (h : Thinned os os') (span : Span) : Thinned (os ++ [⟨span, false⟩]) os' :=
  ⟨h.sublist.trans (List.sublist_append_left ..), by simp [h.declaring]⟩

end Thinned

/-- The keys are the same, in the same order, and occurrences that do not declare may be
missing under them. -/
def ThinnedEntries (es es' : List (String × List Occurrence)) : Prop :=
  List.Forall₂ (fun e e' => e.1 = e'.1 ∧ Thinned e.2 e'.2) es es'

namespace ThinnedEntries

variable {es es' : List (String × List Occurrence)}

theorem isSome_lookup (h : ThinnedEntries es es') (key : String) :
    (es.lookup key).isSome = (es'.lookup key).isSome := by
  induction h with
  | nil => rfl
  | @cons e e' es es' he _ ih =>
    obtain ⟨k, os⟩ := e
    obtain ⟨k', os'⟩ := e'
    obtain rfl : k = k' := he.1
    rw [List.lookup_cons, List.lookup_cons]
    cases key == k <;> simp [ih]

theorem insert (h : ThinnedEntries es es') (key : String) (span : Span) :
    ThinnedEntries (SymbolTable.insert key span es) (SymbolTable.insert key span es') := by
  induction h with
  | nil => exact .cons ⟨rfl, .refl _⟩ .nil
  | @cons e e' es es' he hes ih =>
    obtain ⟨k, os⟩ := e
    obtain ⟨k', os'⟩ := e'
    obtain rfl : k = k' := he.1
    rw [SymbolTable.insert, SymbolTable.insert]
    split
    · exact .cons ⟨rfl, he.2.concat _⟩ hes
    · exact .cons he ih

theorem insert_left (h : ThinnedEntries es es') {key : String} (hkey : (es.lookup key).isSome)
    (span : Span) : ThinnedEntries (SymbolTable.insert key span es) es' := by
  induction h with
  | nil => cases hkey
  | @cons e e' es es' he hes ih =>
    obtain ⟨k, os⟩ := e
    rw [SymbolTable.insert]
    split
    · exact .cons ⟨he.1, he.2.concat_left span⟩ hes
    · next hne =>
      rw [List.lookup_cons, beq_false_of_ne hne] at hkey
      exact .cons he (ih hkey)

end ThinnedEntries

/-- A scope with the same head and the same paths, in which uses may be missing. -/
structure IndexedScope.Thinned (s s' : IndexedScope) : Prop where
  type : s.type = s'.type
  span : s.span = s'.span
  depth : s.depth = s'.depth
  symbols : ThinnedEntries s.symbols s'.symbols

/-! ### Two runs -/

namespace Mention

variable {n size : Nat} {tables tables' : Nat → SymbolTable}

/-- The tables of the scopes around the node numbered `n`, with and without what stands
below it. -/
def Secluded (n size : Nat) (tables tables' : Nat → SymbolTable) : Prop :=
  ∀ i ≠ n, ThinnedEntries (tables (shift n size i)).entries (tables' i).entries

namespace Secluded

theorem contains_eq (h : Secluded n size tables tables') {i : Nat} (hi : i ≠ n) (path : String) :
    (tables (shift n size i)).contains path = (tables' i).contains path :=
  (h i hi).isSome_lookup _

/-- Around the node a mention goes to the same scope. -/
theorem target?_renumber (h : Secluded n size tables tables') {m : Mention} (hm : n ∉ m.scopes) :
    (m.renumber (shift n size)).target? tables = (m.target? tables').map (shift n size) := by
  have hfind : (m.scopes.map (shift n size)).find? (fun i => (tables i).contains m.path) =
      (m.scopes.find? fun i => (tables' i).contains m.path).map (shift n size) := by
    rw [List.find?_map]
    congr 1
    refine List.find?_congr fun i hi => ?_
    exact h.contains_eq (fun heq => hm (heq ▸ hi)) m.path
  simp only [target?, renumber, List.head?_map, hfind]
  split
  · rfl
  · cases m.scopes.find? fun i => (tables' i).contains m.path <;> rfl

/-- A mention around the node, in both runs. -/
theorem place_twin (h : Secluded n size tables tables') {m : Mention} (hm : n ∉ m.scopes) :
    Secluded n size (place tables (m.renumber (shift n size))) (place tables' m) := by
  intro i hi
  have htarget : (m.renumber (shift n size)).target? tables = some (shift n size i) ↔
      m.target? tables' = some i := by
    rw [h.target?_renumber hm, ← Option.map_some]
    exact (Option.map_injective (shift_injective n size)).eq_iff
  simp only [place, htarget]
  split
  · exact (h i hi).insert _ _
  · exact h i hi

/-- A mention below the node, in the first run only.  The innermost scope in its view is
that of the node or one below it, so what goes further out is a known path. -/
theorem place_inner (h : Secluded n size tables tables') {m : Mention}
    (hm : ∀ j, m.scopes.head? = some j → n ≤ j ∧ j ≤ n + size) :
    Secluded n size (place tables m) tables' := by
  intro i hi
  rw [place]
  split
  · next htarget =>
    -- a scope around the node is not the innermost one
    have hhead : m.scopes.head? ≠ some (shift n size i) := by
      intro hhead
      have := hm _ hhead
      unfold shift at this
      split at this <;> omega
    rw [target?] at htarget
    split at htarget
    · exact absurd htarget hhead
    · rcases Option.or_eq_some_iff.mp htarget with hfind | ⟨-, hsome⟩
      · have hknown := List.find?_some hfind
        exact (h i hi).insert_left hknown _
      · exact absurd hsome hhead
  · exact h i hi

/-- The mentions around the node, in both runs. -/
theorem foldl_twins {ms ms' : List Mention} (hms : List.Forall₂ (fun m m' =>
      m = renumber (shift n size) m' ∧ n ∉ m'.scopes) ms ms') :
    ∀ {tables tables' : Nat → SymbolTable}, Secluded n size tables tables' →
      Secluded n size (ms.foldl place tables) (ms'.foldl place tables') := by
  induction hms with
  | nil => intro tables tables' h; exact h
  | cons hm _ ih =>
    intro tables tables' h
    rw [List.foldl_cons, List.foldl_cons, hm.1]
    exact ih (h.place_twin hm.2)

/-- The mentions below the node, in the first run. -/
theorem foldl_inner {ms : List Mention}
    (hms : ∀ m ∈ ms, ∀ j, m.scopes.head? = some j → n ≤ j ∧ j ≤ n + size) :
    ∀ {tables : Nat → SymbolTable}, Secluded n size tables tables' →
      Secluded n size (ms.foldl place tables) tables' := by
  induction ms with
  | nil => intro tables h; exact h
  | cons m ms ih =>
    intro tables h
    obtain ⟨hm, hms⟩ := List.forall_mem_cons.mp hms
    exact ih hms (h.place_inner hm)

end Secluded
end Mention

namespace Job

variable {job : Job}

theorem scopeIds_append (ts us : List Tree) :
    job.scopeIds (ts ++ us) = job.scopeIds ts ++ job.scopeIds us := by
  rw [scopeIds, List.filter_append, List.map_append]
  rfl

/-- Twins mention the same, and do not have the node in view. -/
theorem mentions_twins {n size : Nat} {ss ss' : List Site}
    (hid : ∀ l i, job.opens { l with id := i } = job.opens l)
    (h : List.Forall₂ (Site.Twins n size) ss ss') :
    List.Forall₂ (fun m m' => m = Mention.renumber (shift n size) m' ∧ n ∉ m'.scopes)
      (job.mentions ss) (job.mentions ss') := by
  refine List.rel_filterMap ?_ h
  intro s s' hs
  rw [mention?_twins hid hs]
  cases hm : job.mention? s' with
  | none => exact .none
  | some m =>
    refine .some ⟨rfl, fun hn => ?_⟩
    obtain ⟨t, ht, htn⟩ := List.mem_map.mp (scopes_subset_of_mention? hm hn)
    exact Tree.Twins.ne_of_mem hs t (List.mem_of_mem_filter ht) htn

/-- Below a node that opens a scope, the innermost scope in view is that of the node or
one below it. -/
theorem head?_scopes_of_mem_sites {t : Tree} {up : List Tree} {s : Site} {m : Mention} {j : Nat}
    (hnum : t.children.NumberedFrom (t.label.id + 1)) (ho : job.opens t.label = true)
    (hs : s ∈ t.children.sites (t :: up)) (hm : job.mention? s = some m)
    (hj : m.scopes.head? = some j) :
    t.label.id ≤ j ∧ j ≤ t.label.id + t.children.size := by
  obtain ⟨between, habove, hids⟩ := Forest.exists_above_eq _ hnum hs
  -- the scopes in view, from the inside up to that of the node
  have hview : ∃ inner ⊆ s.node :: between, m.scopes = job.scopeIds (inner ++ t :: up) := by
    rw [mention?_eq_map_saying?] at hm
    obtain ⟨y, -, rfl⟩ := Option.map_eq_some_iff.mp hm
    cases ho : y.outside with
    | true => exact ⟨between, List.subset_cons_self .., by simp [mentionOf, mentionAt, ho, habove]⟩
    | false =>
      refine ⟨s.node :: between, List.Subset.refl _, ?_⟩
      simp [mentionOf, mentionAt, ho, Site.lineage, habove]
  obtain ⟨inner, hinner, hscopes⟩ := hview
  rw [hscopes, scopeIds_append, job.scopeIds_cons_of_opens up ho, List.head?_append] at hj
  rcases Option.or_eq_some_iff.mp hj with hhead | ⟨-, hself⟩
  · obtain ⟨t', ht', rfl⟩ := List.mem_map.mp (List.mem_of_head? hhead)
    have := hids t' (hinner (List.mem_of_mem_filter ht'))
    omega
  · obtain rfl : t.label.id = j := Option.some.inj hself
    omega

end Job

/-! ### Trees -/

/-- The scopes around the open place, among the scopes of the row with a tree there: those
before and those behind the scopes of the tree. -/
def Hole.around (opens : Label → Bool) (hole : Hole) (t : Tree) (scopes : List IndexedScope) :
    List IndexedScope :=
  scopes.take (hole.before.countP opens) ++
    scopes.drop (hole.before.countP opens + t.toForest.preorder.countP opens)

theorem Hole.around_append {opens : Label → Bool} {hole : Hole} {t : Tree}
    {before inner after : List IndexedScope} (hbefore : before.length = hole.before.countP opens)
    (hinner : inner.length = t.toForest.preorder.countP opens) :
    hole.around opens t (before ++ inner ++ after) = before ++ after := by
  rw [around, ← hbefore, ← hinner, List.append_assoc, List.take_left, ← List.append_assoc,
    ← List.length_append, List.drop_left]

namespace Job

variable {job : Job} {hole : Hole} {l : Label} {kids : Forest} {tree tree' : Tree}

theorem mention?_of_other (job : Job) {s : Site} (h : s.kind = .other) : job.mention? s = none := by
  rw [mention?, h]

/-- A node that opens a scope and has no part in naming records nothing, and what stands
below it has the scope of the node in view. -/
theorem foldl_mentions_block {n : Nat} {up : List Tree} {tables tables' : Nat → SymbolTable}
    (hk : l.kind = .other) (hn : l.named = true) (ho : job.opens { l with id := n } = true)
    (h : Mention.Secluded n kids.size tables tables') :
    Mention.Secluded n kids.size
      ((job.mentions (((Forest.cons l kids .nil).numbered n).sites up)).foldl Mention.place tables)
      tables' := by
  refine Mention.Secluded.foldl_inner (fun m hm j hj => ?_) h
  obtain ⟨s, hs, hsm⟩ := List.mem_filterMap.mp hm
  rw [Forest.numbered, Forest.sites_cons_of_named (l := { l with id := n }) hn, Forest.numbered,
    Forest.sites, List.append_nil, List.mem_cons] at hs
  rcases hs with rfl | hs
  · have hnone := job.mention?_of_other (s := ⟨⟨{ l with id := n }, kids.numbered (n + 1)⟩, up⟩) hk
    rw [hnone] at hsm
    cases hsm
  · have := head?_scopes_of_mem_sites (Forest.numberedFrom_numbered kids (n + 1)) ho hs hsm hj
    rwa [Forest.size_numbered] at this

/-- The tables around a node, with its children and without. -/
theorem tables_secluded {n count : Nat} {ss ss' : List Site}
    (hid : ∀ l i, job.opens { l with id := i } = job.opens l) (hk : l.kind = .other)
    (hn : l.named = true) (ho : job.opens l = true)
    (h : Hole.Splits l kids n job.opens count ss ss') :
    Mention.Secluded n kids.size (job.tables ss) (job.tables ss') := by
  obtain ⟨up, up', before, before', after, after', rfl, rfl, hbefore, hafter, -⟩ := h
  have hself : job.mentions (((Forest.cons l .nil .nil).numbered n).sites up') = [] := by
    rw [Forest.numbered, Forest.sites_cons_of_named (l := { l with id := n }) hn]
    exact List.filterMap_cons_none (job.mention?_of_other hk)
  rw [tables, tables, mentions_append, mentions_append, mentions_append, mentions_append, hself,
    List.append_nil, List.foldl_append, List.foldl_append, List.foldl_append]
  refine Mention.Secluded.foldl_twins (mentions_twins hid hafter) ?_
  refine foldl_mentions_block hk hn ((hid l n).trans ho) ?_
  exact Mention.Secluded.foldl_twins (mentions_twins hid hbefore) fun _ _ => .nil

/-- The scopes of twins. -/
theorem thinned_scopeAt {n size : Nat} {tables tables' : Nat → SymbolTable} {ss ss' : List Site}
    (hid : ∀ l i, job.opens { l with id := i } = job.opens l)
    (htables : Mention.Secluded n size tables tables')
    (h : List.Forall₂ (Site.Twins n size) ss ss') :
    List.Forall₂ IndexedScope.Thinned ((job.scopeSites ss).map (job.scopeAt tables))
      ((job.scopeSites ss').map (job.scopeAt tables')) := by
  have hscopes : List.Forall₂ (Site.Twins n size) (job.scopeSites ss) (job.scopeSites ss') := by
    refine List.rel_filter (fun s s' hs => ?_) h
    change job.opens s.node.label = true ↔ job.opens s'.node.label = true
    rw [opens_twins hid (List.forall₂_cons.mp hs).1]
  refine List.rel_map (fun s s' hs => ?_) hscopes
  obtain ⟨hnode, habove⟩ := List.forall₂_cons.mp hs
  have htype := congrArg (fun t : Tree => t.label.type) hnode.outline
  have hspan := congrArg (fun t : Tree => t.label.span) hnode.outline
  refine ⟨htype, hspan, ?_, ?_⟩
  · simp only [scopeAt, scopeIds_twins hid habove, List.length_map]
  · have hid : s.id = shift n size s'.id := hnode.shift
    simp only [scopeAt, hid]
    exact htables s'.id hnode.ne

/-- The scopes around a node, with its children and without. -/
theorem reading_secluded (hid : ∀ l i, job.opens { l with id := i } = job.opens l)
    (hnamed : ∀ l, l.named = false → job.opens l = false) (hk : l.kind = .other)
    (hn : l.named = true) (ho : job.opens l = true)
    (h : tree.toForest = hole.fill ⟨l, kids⟩) (h' : tree'.toForest = hole.fill ⟨l, .nil⟩) :
    List.Forall₂ IndexedScope.Thinned (hole.around job.opens ⟨l, kids⟩ (job.reading tree))
      (hole.around job.opens ⟨l, .nil⟩ (job.reading tree')) := by
  have hsplits := Hole.splits_numbered hid hnamed hk h h'
  have htables := tables_secluded hid hk hn ho hsplits
  obtain ⟨up, up', before, before', after, after', hs, hs', hbefore, hafter, hcount⟩ := hsplits
  have hbefore' := thinned_scopeAt hid htables hbefore
  have hlength : ((job.scopeSites before).map
      (job.scopeAt (job.tables tree.numbered.sites))).length = hole.before.countP job.opens := by
    rw [List.length_map, scopeSites, ← List.countP_eq_length_filter, hcount]
  have hblock : ∀ (kids : Forest) (up : List Tree) (tables : Nat → SymbolTable),
      ((job.scopeSites (((Forest.cons l kids .nil).numbered (1 + hole.before.length)).sites up)).map
        (job.scopeAt tables)).length = (⟨l, kids⟩ : Tree).toForest.preorder.countP job.opens := by
    intro kids up tables
    rw [List.length_map, scopeSites, ← List.countP_eq_length_filter,
      Forest.countP_sites_numbered hid hnamed]
    rfl
  have hfull : hole.around job.opens ⟨l, kids⟩ (job.reading tree) =
      (job.scopeSites before).map (job.scopeAt (job.tables tree.numbered.sites)) ++
        (job.scopeSites after).map (job.scopeAt (job.tables tree.numbered.sites)) := by
    rw [reading_eq_map, ← Hole.around_append hlength (hblock kids up _), ← List.map_append,
      ← List.map_append, ← scopeSites_append, ← scopeSites_append, ← hs]
  have hbare : hole.around job.opens ⟨l, .nil⟩ (job.reading tree') =
      (job.scopeSites before').map (job.scopeAt (job.tables tree'.numbered.sites)) ++
        (job.scopeSites after').map (job.scopeAt (job.tables tree'.numbered.sites)) := by
    rw [reading_eq_map, ← Hole.around_append (hbefore'.length_eq ▸ hlength) (hblock .nil up' _),
      ← List.map_append, ← List.map_append, ← scopeSites_append, ← scopeSites_append, ← hs']
  rw [hfull, hbare]
  exact List.rel_append hbefore' (thinned_scopeAt hid htables hafter)

end Job

/-! ### Documents -/

namespace Document

variable {source : Source} {path marker : String} {tolerant : Bool} {types : List String}
  {hole : Hole} {l : Label} {kids : Forest} {tree tree' : Tree}

/-- The node and what stands below it are covered, if the node opens a scope and has no
part in naming. -/
theorem covered_of_mem_block {n : Nat} {up : List Tree} {s : Site} (hk : l.kind = .other)
    (hn : l.named = true) (ht : l.type ∈ types)
    (hs : s ∈ ((Forest.cons l kids .nil).numbered n).sites up) : s.Covered types := by
  rw [Forest.numbered, Forest.sites_cons_of_named (l := { l with id := n }) hn, Forest.numbered,
    Forest.sites, List.append_nil, List.mem_cons] at hs
  rcases hs with rfl | hs
  · have hkind : Site.kind ⟨⟨{ l with id := n }, kids.numbered (n + 1)⟩, up⟩ = .other := hk
    constructor
    · simp [Site.recordsItself, Site.constantProperty?, Site.addsName, hkind]
    · simp [Site.isLiteralMethod, hkind]
  · have hroot := (Forest.suffix_above_of_mem_sites _ hs).subset List.mem_cons_self
    exact Site.covered_of_mem_above hroot ht

/-- Taking the children of a node that opens a scope away does not change whether all
sites are covered. -/
theorem forall_covered_iff (hk : l.kind = .other) (hn : l.named = true) (ht : l.type ∈ types)
    (h : tree.toForest = hole.fill ⟨l, kids⟩) (h' : tree'.toForest = hole.fill ⟨l, .nil⟩) :
    (∀ s ∈ tree.sites, s.Covered types) ↔ ∀ s ∈ tree'.sites, s.Covered types := by
  have htwins : ∀ {n size : Nat} {ss ss' : List Site}, List.Forall₂ (Site.Twins n size) ss ss' →
      ((∀ s ∈ ss, s.Covered types) ↔ ∀ s ∈ ss', s.Covered types) := by
    intro n size ss ss' hss
    have hmap : ss.map Site.outline = ss'.map Site.outline :=
      List.forall₂_eq_eq_eq ▸ List.rel_map (fun _ _ hs => Site.Twins.outline hs) hss
    have houtline : ∀ ss : List Site, (∀ s ∈ ss, s.Covered types) ↔
        ∀ o ∈ ss.map Site.outline, o.Covered types := by
      intro ss
      simp [Site.covered_outline]
    rw [houtline, hmap, ← houtline]
  obtain ⟨up, up', before, before', after, after', hs, hs', hbefore, hafter, -⟩ :=
    Hole.splits_numbered (q := (Boundary.ofTypes types).opens) (fun _ _ => rfl)
      (fun l hl => by simp [Boundary.opens, hl]) hk h h'
  have hblock : ∀ s ∈ ((Forest.cons l kids .nil).numbered (1 + hole.before.length)).sites up,
      s.Covered types := fun s hs => covered_of_mem_block hk hn ht hs
  have hblock' : ∀ s ∈ ((Forest.cons l .nil .nil).numbered (1 + hole.before.length)).sites up',
      s.Covered types := fun s hs => covered_of_mem_block hk hn ht hs
  rw [← Tree.forall_sites_numbered (Site.covered_outline types) tree,
    ← Tree.forall_sites_numbered (Site.covered_outline types) tree', hs, hs']
  simp only [List.forall_mem_append, htwins hbefore, htwins hafter]
  exact ⟨fun h => ⟨⟨h.1.1, hblock'⟩, h.2⟩, fun h => ⟨⟨h.1.1, hblock⟩, h.2⟩⟩

/-- **The body of a node that opens a scope does not interfere with the scopes around it.**
Let the node have no part in naming, as functions have none.  There is an index with the
body just when there is one without it.  The scopes around the node then correspond in
order, with the same heads and the same keys, and what they hold without the body is
what they hold with it, except for occurrences that do not declare. -/
theorem indexTree_secluded (source : Source) (path marker : String) (tolerant : Bool)
    (types : List String) (hole : Hole) (l : Label) (kids : Forest) (tree tree' : Tree)
    (hk : l.kind = .other) (hn : l.named = true) (ht : l.type ∈ types)
    (h : tree.toForest = hole.fill ⟨l, kids⟩) (h' : tree'.toForest = hole.fill ⟨l, .nil⟩) :
    let rules : IndexRules := ⟨tolerant, marker, .ofTypes types⟩
    ((∃ scopes, (indexTree source tree path rules).result = .ok scopes) ↔
        ∃ scopes, (indexTree source tree' path rules).result = .ok scopes) ∧
      ∀ scopes scopes', (indexTree source tree path rules).result = .ok scopes →
        (indexTree source tree' path rules).result = .ok scopes' →
          List.Forall₂ IndexedScope.Thinned
            (hole.around rules.boundary.opens ⟨l, kids⟩ scopes)
            (hole.around rules.boundary.opens ⟨l, .nil⟩ scopes') := by
  intro rules
  constructor
  · rw [exists_indexTree_iff, exists_indexTree_iff]
    exact forall_covered_iff hk hn ht h h'
  · intro scopes scopes' hscopes hscopes'
    rw [(Job.indexTree_settled hscopes).2, (Job.indexTree_settled hscopes').2]
    have ho : (Boundary.ofTypes types).opens l = true := by
      rw [Boundary.opens_of_named _ hn, List.contains_iff_mem]
      exact ht
    have hnamed : ∀ l : Label, l.named = false → (Boundary.ofTypes types).opens l = false := by
      intro l hl
      simp [Boundary.opens, hl]
    exact @Job.reading_secluded (Job.ofRules source path rules) hole l kids tree tree'
      (fun _ _ => rfl) hnamed hk hn ho h h'

end Document

/-! ### A function that uses a name from outside -/

namespace Sample

/-- A name, a function that uses it beside a name of its own, and the name again. -/
def arrowSource : Source := .ofText "a,()=>a+b,a"

/-- The place of the function. -/
def arrowHole : Hole :=
  .inside { type := "program", span := ⟨0, 11⟩ }
    (.behind { type := "identifier", span := ⟨0, 1⟩ } .nil <|
      .here (.cons { type := "identifier", span := ⟨10, 11⟩ } .nil .nil)) .nil

/-- The function. -/
def arrow : Label := { type := "arrow_function", span := ⟨2, 9⟩ }

/-- Its body. -/
def arrowBody : Forest :=
  .cons { type := "identifier", span := ⟨6, 7⟩ } .nil <|
  .cons { type := "identifier", span := ⟨8, 9⟩ } .nil .nil

/-- The tree with the function, and a body for it. -/
def arrowTree (body : Forest) : Tree :=
  ⟨{ type := "program", span := ⟨0, 11⟩ },
    .cons { type := "identifier", span := ⟨0, 1⟩ } .nil <| .cons arrow body <|
      .cons { type := "identifier", span := ⟨10, 11⟩ } .nil .nil⟩

/-- The scope around the function takes the use that stands in it. -/
def arrowScopes : List IndexedScope :=
  [{ type := "program", span := ⟨0, 11⟩, depth := 0
     symbols := [("a", [⟨⟨0, 1⟩, true⟩, ⟨⟨6, 7⟩, false⟩, ⟨⟨10, 11⟩, false⟩])] },
   { type := "arrow_function", span := ⟨2, 9⟩, depth := 1
     symbols := [("b", [⟨⟨8, 9⟩, true⟩])] }]

/-- Without a body the use is missing. -/
def hollowArrowScopes : List IndexedScope :=
  [{ type := "program", span := ⟨0, 11⟩, depth := 0
     symbols := [("a", [⟨⟨0, 1⟩, true⟩, ⟨⟨10, 11⟩, false⟩])] },
   { type := "arrow_function", span := ⟨2, 9⟩, depth := 1, symbols := [] }]

end Sample

theorem Document.indexTree_secluded_sample :
    let rules : IndexRules := ⟨false, "?", .ofTypes ["program", "arrow_function"]⟩
    (indexTree Sample.arrowSource (Sample.arrowTree Sample.arrowBody) "f.js" rules).result =
        .ok Sample.arrowScopes ∧
      (indexTree Sample.arrowSource (Sample.arrowTree .nil) "f.js" rules).result =
        .ok Sample.hollowArrowScopes ∧
      List.Forall₂ IndexedScope.Thinned
        (Sample.arrowHole.around rules.boundary.opens ⟨Sample.arrow, Sample.arrowBody⟩
          Sample.arrowScopes)
        (Sample.arrowHole.around rules.boundary.opens ⟨Sample.arrow, .nil⟩
          Sample.hollowArrowScopes) := by
  intro rules
  have hfull : (indexTree Sample.arrowSource (Sample.arrowTree Sample.arrowBody) "f.js"
      rules).result = .ok Sample.arrowScopes := by
    rw [indexTree, Job.indexTree, Pass.run, Pass.walk_eq]
    decide +kernel
  have hhollow : (indexTree Sample.arrowSource (Sample.arrowTree .nil) "f.js" rules).result =
      .ok Sample.hollowArrowScopes := by
    rw [indexTree, Job.indexTree, Pass.run, Pass.walk_eq]
    decide +kernel
  have hsecluded := indexTree_secluded Sample.arrowSource "f.js" "?" false
    ["program", "arrow_function"] Sample.arrowHole Sample.arrow Sample.arrowBody
    (Sample.arrowTree Sample.arrowBody) (Sample.arrowTree .nil) (by decide) rfl (by decide) rfl rfl
  exact ⟨hfull, hhollow, hsecluded.2 _ _ hfull hhollow⟩

end ScopeIndex
