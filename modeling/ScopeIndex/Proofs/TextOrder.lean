import Mathlib
import ScopeIndex.Proofs.Additions
import ScopeIndex.Proofs.Containment

/-!
# The order of occurrences

The occurrences of a path stand in the order in which the sites that record them are met, and
that is the pre-order of the tree.  Where nodes lie one behind the other, of two sites in
pre-order either the first ends before the second starts, or the second is below the first.

An identifier starts where it is recorded, so it never starts behind what is below it.  A
member access and a method are recorded when they are met, by a child of theirs: the constant
that is accessed, or the name.  What lies in front of that child is met later, and this is the
one way in which an occurrence comes to stand behind one that starts after it.

## Main definitions

* `Forest.LaidOut`, `Tree.LaidOut` — nodes lie in their parents, one behind the other.
* `Site.below` — the sites below a site.
* `Site.InOrder` — what the first of two sites records does not start after what the second
  does.
* `Site.Anticipates` — a site below another one records what lies in front of the child that
  the other one records.
* `Job.RecordedBy` — the sites that record the occurrences of a path.

## Main results

* `Forest.LaidOut.pairwise_sites` — two sites in pre-order.
* `Site.inOrder_or_anticipates` — a site and a site below it.
* `Job.exists_recorders` — the occurrences of a path are those of sites in pre-order.
* `Job.indexTree_inOrder` — **occurrences are in the order of the text, unless anticipated.**
-/

namespace ScopeIndex

/-! ### Nodes one behind the other -/

/-- The nodes of the row lie one behind the other from `a` to `b`, and those below each of them
do so from its start to its end. -/
def Forest.LaidOut (a b : Int) : Forest → Prop
  | nil => a ≤ b
  | cons l kids rest =>
      a ≤ l.span.start ∧ kids.LaidOut l.span.start l.span.stop ∧ rest.LaidOut l.span.stop b

instance Forest.decidableLaidOut : ∀ (a b : Int) (f : Forest), Decidable (f.LaidOut a b)
  | a, b, nil => inferInstanceAs (Decidable (a ≤ b))
  | _, b, cons l kids rest =>
      have := decidableLaidOut l.span.start l.span.stop kids
      have := decidableLaidOut l.span.stop b rest
      inferInstanceAs (Decidable (_ ∧ _ ∧ _))

/-- The children of every node lie in the node, one behind the other. -/
def Tree.LaidOut (t : Tree) : Prop := t.children.LaidOut t.label.span.start t.label.span.stop

instance (t : Tree) : Decidable t.LaidOut := inferInstanceAs (Decidable (t.children.LaidOut _ _))

/-- The sites below a site, in pre-order. -/
def Site.below (s : Site) : List Site := s.node.children.sites s.lineage

theorem Forest.FitsIn.mono {f : Forest} {outer outer' : Span} (h : f.FitsIn outer)
    (hle : outer.Within outer') : f.FitsIn outer' := by
  induction f with
  | nil => trivial
  | cons l kids rest _ ihr => exact ⟨h.1.trans hle, h.2.1, ihr h.2.2⟩

namespace Forest.LaidOut

variable {f : Forest} {a b : Int}

theorem numbered (h : f.LaidOut a b) : ∀ n, (f.numbered n).LaidOut a b := by
  induction f generalizing a b with
  | nil => intro n; exact h
  | cons l kids rest ihk ihr =>
    obtain ⟨hl, hk, hr⟩ := h
    intro n
    exact ⟨hl, ihk hk _, ihr hr _⟩

theorem le (h : f.LaidOut a b) : a ≤ b := by
  induction f generalizing a b with
  | nil => exact h
  | cons l kids rest ihk ihr =>
    obtain ⟨hl, hk, hr⟩ := h
    exact hl.trans ((ihk hk).trans (ihr hr))

theorem fitsIn (h : f.LaidOut a b) : f.FitsIn ⟨a, b⟩ := by
  induction f generalizing a b with
  | nil => trivial
  | cons l kids rest ihk ihr =>
    obtain ⟨hl, hk, hr⟩ := h
    exact ⟨⟨hl, hr.le⟩, ihk hk, (ihr hr).mono ⟨hl.trans hk.le, le_rfl⟩⟩

theorem within_of_mem_sites (h : f.LaidOut a b) {above : List Tree} {s : Site}
    (hs : s ∈ f.sites above) : s.node.label.span.Within ⟨a, b⟩ :=
  (h.fitsIn.of_mem_sites hs).2.1

theorem laidOut_of_mem_sites (h : f.LaidOut a b) {above : List Tree} {s : Site}
    (hs : s ∈ f.sites above) : s.node.LaidOut := by
  induction f generalizing a b above with
  | nil => cases hs
  | cons l kids rest ihk ihr =>
    obtain ⟨-, hk, hr⟩ := h
    cases hn : l.named with
    | true =>
      rw [sites_cons_of_named hn, List.cons_append, List.mem_cons, List.mem_append] at hs
      rcases hs with rfl | hs | hs
      · exact hk
      · exact ihk hk hs
      · exact ihr hr hs
    | false =>
      rw [sites_cons_of_anonymous hn, List.mem_append] at hs
      rcases hs with hs | hs
      · exact ihk hk hs
      · exact ihr hr hs

theorem laidOut_of_child? (h : f.LaidOut a b) {field : String} {t : Tree}
    (ht : f.child? field = some t) : t.LaidOut := by
  induction f generalizing a with
  | nil => cases ht
  | cons l kids rest _ ihr =>
    obtain ⟨-, hk, hr⟩ := h
    rw [child?] at ht
    split at ht
    · cases ht
      exact hk
    · exact ihr hr ht

/-- **Two sites in pre-order**: the second is below the first, or starts where that has ended. -/
theorem pairwise_sites (h : f.LaidOut a b) (above : List Tree) :
    (f.sites above).Pairwise fun r r' =>
      r' ∈ r.below ∨ r.node.label.span.stop ≤ r'.node.label.span.start := by
  induction f generalizing a b above with
  | nil => exact .nil
  | cons l kids rest ihk ihr =>
    obtain ⟨-, hk, hr⟩ := h
    -- what is below the first node ends before the rest of the row starts
    have hacross : ∀ up, ∀ r ∈ kids.sites up, ∀ r' ∈ rest.sites above, r' ∈ r.below ∨
        r.node.label.span.stop ≤ r'.node.label.span.start := by
      intro up r hr₁ r' hr₂
      exact .inr ((hk.within_of_mem_sites hr₁).2.trans (hr.within_of_mem_sites hr₂).1)
    cases hn : l.named with
    | true =>
      rw [sites_cons_of_named hn, List.cons_append, List.pairwise_cons, List.pairwise_append]
      refine ⟨fun r' hr' => ?_, ihk hk _, ihr hr _, hacross _⟩
      rcases List.mem_append.mp hr' with hbelow | hbehind
      · exact .inl hbelow
      · exact .inr (hr.within_of_mem_sites hbehind).1
    | false =>
      rw [sites_cons_of_anonymous hn, List.pairwise_append]
      exact ⟨ihk hk _, ihr hr _, hacross _⟩

/-- A site below a row ends in front of a given node of the row, or does not start before it. -/
theorem apart_of_child? (h : f.LaidOut a b) {field : String} {t : Tree}
    (ht : f.child? field = some t) {above : List Tree} {s : Site} (hs : s ∈ f.sites above) :
    s.node.label.span.stop ≤ t.label.span.start ∨
      t.label.span.start ≤ s.node.label.span.start := by
  induction f generalizing a with
  | nil => cases hs
  | cons l kids rest _ ihr =>
    rw [child?] at ht
    split at ht
    · -- the node is the first of the row, which may as well start with it
      cases ht
      have hfirst : (cons l kids rest).LaidOut l.span.start b := ⟨le_rfl, h.2⟩
      exact .inr (hfirst.within_of_mem_sites hs).1
    · obtain ⟨-, hk, hr⟩ := h
      rw [sites_cons, List.mem_append] at hs
      rcases hs with hs | hs
      · have halone : (cons l kids nil).LaidOut l.span.start l.span.stop := ⟨le_rfl, hk, le_rfl⟩
        exact .inl ((halone.within_of_mem_sites hs).2.trans (hr.fitsIn.within_of_child? ht).1)
      · exact ihr hr ht hs

end Forest.LaidOut

theorem Tree.LaidOut.numbered {t : Tree} (h : t.LaidOut) : t.numbered.LaidOut :=
  Forest.LaidOut.numbered h 2

theorem Tree.LaidOut.toForest {t : Tree} (h : t.LaidOut) :
    t.toForest.LaidOut t.label.span.start t.label.span.stop :=
  ⟨le_rfl, h, le_rfl⟩

/-! ### What two sites record -/

namespace Site

/-- What the first site records does not start after what the second records. -/
def InOrder (r r' : Site) : Prop :=
  ∀ span ∈ r.recorded?, ∀ span' ∈ r'.recorded?, span.start ≤ span'.start

/-- The first site records a child, the constant of a member access or the name of a method in
an object literal, and the second, which is below the first, what lies in front of that
child. -/
structure Anticipates (r r' : Site) : Prop where
  below : r' ∈ r.below
  child : r.constantProperty?.isSome = true ∨ r.isLiteralMethod = true
  behind : ∀ span ∈ r.recorded?, ∀ span' ∈ r'.recorded?, span'.stop ≤ span.start

instance (r r' : Site) : Decidable (r.Anticipates r') :=
  decidable_of_iff (r' ∈ r.below ∧ (r.constantProperty?.isSome = true ∨ r.isLiteralMethod = true) ∧
      ∀ span ∈ r.recorded?, ∀ span' ∈ r'.recorded?, span'.stop ≤ span.start)
    ⟨fun h => ⟨h.1, h.2.1, h.2.2⟩, fun h => ⟨h.below, h.child, h.behind⟩⟩

variable {r r' : Site} {span : Span}

/-- What a site records is its node, or a child as in `Anticipates`. -/
theorem eq_span_or_child_of_recorded? (h : r.recorded? = some span) :
    span = r.node.label.span ∨
      (r.constantProperty?.isSome = true ∨ r.isLiteralMethod = true) ∧
        ∃ field t, r.node.child? field = some t ∧ span = t.label.span := by
  unfold recorded? at h
  cases hk : r.kind with
  | memberAccess =>
    simp only [hk] at h
    refine .inr ⟨.inl (by rw [h]; rfl), ?_⟩
    simp only [constantProperty?, hk, if_true] at h
    obtain ⟨q, hq, rfl⟩ := Option.map_eq_some_iff.mp h
    exact ⟨_, q, (Option.filter_eq_some_iff.mp hq).1, rfl⟩
  | method =>
    simp only [hk] at h
    split at h
    · next hin =>
      obtain ⟨n, hn, rfl⟩ := Option.map_eq_some_iff.mp h
      exact .inr ⟨.inr (by rw [isLiteralMethod, hk, hin]; rfl), "name", n, hn, rfl⟩
    · cases h
  | identifier =>
    simp only [hk] at h
    split at h
    · cases h
    · cases h
      exact .inl rfl
  | _ => simp [hk] at h

theorem within_of_laidOut (hr : r.node.LaidOut) (h : r.recorded? = some span) :
    span.Within r.node.label.span :=
  within_of_recorded? (Forest.LaidOut.fitsIn hr) h

/-- What a site records starts before the site ends. -/
theorem start_le_of_recorded? (hr : r.node.LaidOut) (h : r.recorded? = some span) :
    span.start ≤ r.node.label.span.stop := by
  rcases eq_span_or_child_of_recorded? h with rfl | ⟨-, field, t, ht, rfl⟩
  · exact Forest.LaidOut.le hr
  · have hle := Forest.LaidOut.le (Forest.LaidOut.laidOut_of_child? hr ht)
    exact hle.trans (within_of_laidOut hr h).2

/-- **A site and a site below it** are in order, or the first is recorded by a child that the
second lies in front of. -/
theorem inOrder_or_anticipates (hr : r.node.LaidOut) (hbelow : r' ∈ r.below) :
    r.InOrder r' ∨ r.Anticipates r' := by
  have hr' : r'.node.LaidOut := Forest.LaidOut.laidOut_of_mem_sites hr hbelow
  cases hrec : r.recorded? with
  | none =>
    refine .inl fun span hspan => ?_
    rw [hrec] at hspan
    cases hspan
  | some span =>
    rcases eq_span_or_child_of_recorded? hrec with rfl | ⟨hchild, field, t, ht, rfl⟩
    · refine .inl fun span hspan span' hspan' => ?_
      cases hrec.symm.trans hspan
      exact (Forest.LaidOut.within_of_mem_sites hr hbelow).1.trans
        (within_of_laidOut hr' hspan').1
    · rcases Forest.LaidOut.apart_of_child? hr ht hbelow with hfront | hbehind
      · refine .inr ⟨hbelow, hchild, fun span hspan span' hspan' => ?_⟩
        cases hrec.symm.trans hspan
        exact (within_of_laidOut hr' hspan').2.trans hfront
      · refine .inl fun span hspan span' hspan' => ?_
        cases hrec.symm.trans hspan
        exact hbehind.trans (within_of_laidOut hr' hspan').1

/-- A site and a site that starts where the first has ended are in order. -/
theorem inOrder_of_stop_le (hr : r.node.LaidOut) (hr' : r'.node.LaidOut)
    (h : r.node.label.span.stop ≤ r'.node.label.span.start) : r.InOrder r' := by
  intro span hspan span' hspan'
  exact (start_le_of_recorded? hr hspan).trans (h.trans (within_of_laidOut hr' hspan').1)

end Site

/-- The sites of a tree, two by two. -/
theorem Tree.LaidOut.pairwise_inOrder {t : Tree} (h : t.LaidOut) :
    t.sites.Pairwise fun r r' => r.InOrder r' ∨ r.Anticipates r' := by
  have hlaid : ∀ {s : Site}, s ∈ t.sites → s.node.LaidOut := fun hs =>
    h.toForest.laidOut_of_mem_sites hs
  refine (h.toForest.pairwise_sites []).imp_of_mem fun hr hr' hrel => ?_
  rcases hrel with hbelow | hstop
  · exact Site.inOrder_or_anticipates (hlaid hr) hbelow
  · exact .inl (Site.inOrder_of_stop_le (hlaid hr) (hlaid hr') hstop)

/-! ### Who records the occurrences of a path -/

theorem Occurrence.map_span_declareFirst (ss : List Span) :
    (declareFirst ss).map (·.span) = ss := by
  cases ss with
  | nil => rfl
  | cons s ss => simp [declareFirst, Function.comp_def]

namespace Mention

/-- What a mention adds to the table that takes it. -/
def addition (m : Mention) : Addition := ⟨m.path, m.span⟩

/-- A table has been filled by some of the mentions, in order. -/
theorem exists_foldl_eq_ofAdditions (ms : List Mention) (k : Nat) :
    ∃ taken : List Mention, taken.Sublist ms ∧
      ms.foldl place (fun _ => {}) k = SymbolTable.ofAdditions (taken.map addition) := by
  induction ms using List.reverseRecOn with
  | nil => exact ⟨[], .slnil, rfl⟩
  | append_singleton ms m ih =>
    obtain ⟨taken, hsub, htable⟩ := ih
    rw [List.foldl_append, List.foldl_cons, List.foldl_nil, place]
    split
    · refine ⟨taken ++ [m], hsub.append (.refl _), ?_⟩
      rw [List.map_append, List.map_singleton, SymbolTable.ofAdditions_concat, ← htable]
      rfl
    · exact ⟨taken, hsub.trans (List.sublist_append_left _ _), htable⟩

theorem spans_map_addition (path : String) (ms : List Mention) :
    Addition.spans path (ms.map addition) =
      (ms.filter fun m => m.path = path).map (·.span) := by
  rw [Addition.spans, List.filter_map, List.map_map]
  rfl

end Mention

namespace Job

variable {job : Job}

/-- The entry of a table lists what the given sites record, in their order.  They all mention
its path, and the first of them declares it. -/
structure RecordedBy (job : Job) (e : String × List Occurrence) (recorders : List Site) : Prop where
  path : ∃ path, e.1 = SymbolPath.escape path ∧
    ∀ r ∈ recorders, (job.mention? r).map (·.path) = some path
  list : e.2 = Occurrence.declareFirst (recorders.filterMap Site.recorded?)

/-- **The occurrences of a path** in a table are what some of the sites that fill it record. -/
theorem exists_recorders {sites : List Site} {k : Nat} {e : String × List Occurrence}
    (he : e ∈ (job.tables sites k).entries) :
    ∃ recorders : List Site, recorders.Sublist sites ∧ job.RecordedBy e recorders := by
  obtain ⟨taken, htaken, htable⟩ := Mention.exists_foldl_eq_ofAdditions (job.mentions sites) k
  rw [tables, htable, SymbolTable.entries_ofAdditions] at he
  obtain ⟨path, -, rfl⟩ := List.mem_map.mp he
  -- the mentions of the path are those of some sites, which may be among silent ones
  have hmentions : (taken.filter fun m => m.path = path).Sublist (sites.filterMap job.mention?) :=
    List.filter_sublist.trans htaken
  obtain ⟨among, hamong, heq⟩ := List.sublist_filterMap_iff.mp hmentions
  have hpath : ∀ r ∈ among.filter fun r => (job.mention? r).isSome,
      (job.mention? r).map (·.path) = some path := by
    intro r hr
    obtain ⟨hr, hsome⟩ := List.mem_filter.mp hr
    obtain ⟨m, hm⟩ := Option.isSome_iff_exists.mp hsome
    have hmem : m ∈ taken.filter fun m => m.path = path :=
      heq ▸ List.mem_filterMap.mpr ⟨r, hr, hm⟩
    rw [hm, Option.map_some, of_decide_eq_true (List.mem_filter.mp hmem).2]
  have hspans : (taken.filter fun m => m.path = path).map (·.span) =
      (among.filter fun r => (job.mention? r).isSome).filterMap Site.recorded? := by
    rw [heq, List.map_filterMap, List.filterMap_filter]
    refine List.filterMap_congr fun r _ => ?_
    rw [← Site.mention?_span job r]
    cases job.mention? r <;> rfl
  refine ⟨among.filter fun r => (job.mention? r).isSome, List.filter_sublist.trans hamong,
    ⟨path, rfl, hpath⟩, ?_⟩
  rw [Addition.occurrences, Mention.spans_map_addition, hspans]

/-- Occurrences are in the order of the text if the sites that record them are. -/
theorem RecordedBy.pairwise {e : String × List Occurrence} {recorders : List Site}
    (h : job.RecordedBy e recorders) (hordered : recorders.Pairwise Site.InOrder) :
    e.2.Pairwise fun o o' => o.span.start ≤ o'.span.start := by
  have hspans : (e.2.map (·.span)).Pairwise fun a b => a.start ≤ b.start := by
    rw [h.list, Occurrence.map_span_declareFirst]
    exact hordered.filterMap _ fun r r' hrr' => hrr'
  rwa [List.pairwise_map] at hspans

/-- **Occurrences are in the order of the text, unless anticipated.**  In a tree whose nodes lie
in their parents, one behind the other, every list of an index is what sites that mention its
path record, in pre-order, and the first of them declares.  Of two of these sites the first
records what does not start after what the second records, unless the first records the
constant of a member access or the name of a method in an object literal, and the second stands
in the same node in front of it.  So all lists are in order if no two sites that mention the
same path stand like this. -/
theorem indexTree_inOrder (job : Job) (tree : Tree) (scopes : List IndexedScope)
    (hlaid : tree.LaidOut) (h : (job.indexTree tree).result = .ok scopes) :
    (∀ s ∈ scopes, ∀ e ∈ s.symbols, ∃ recorders : List Site,
      recorders.Sublist tree.numbered.sites ∧ job.RecordedBy e recorders ∧
        recorders.Pairwise fun r r' => r.InOrder r' ∨ r.Anticipates r') ∧
    ((∀ r ∈ tree.numbered.sites, ∀ r' ∈ tree.numbered.sites, r.Anticipates r' →
        (job.mention? r).map (·.path) ≠ (job.mention? r').map (·.path)) →
      ∀ s ∈ scopes, ∀ e ∈ s.symbols,
        e.2.Pairwise fun o o' => o.span.start ≤ o'.span.start) := by
  obtain ⟨-, rfl⟩ := Job.indexTree_settled h
  have hlists : ∀ s ∈ job.reading tree, ∀ e ∈ s.symbols, ∃ recorders : List Site,
      recorders.Sublist tree.numbered.sites ∧ job.RecordedBy e recorders ∧
        recorders.Pairwise fun r r' => r.InOrder r' ∨ r.Anticipates r' := by
    intro s hs e he
    obtain ⟨u, -, rfl⟩ := List.mem_map.mp hs
    obtain ⟨recorders, hsub, hrecorded⟩ := exists_recorders he
    exact ⟨recorders, hsub, hrecorded, hlaid.numbered.pairwise_inOrder.sublist hsub⟩
  refine ⟨hlists, fun hapart s hs e he => ?_⟩
  obtain ⟨recorders, hsub, hrecorded, hpairs⟩ := hlists s hs e he
  obtain ⟨path, -, hpath⟩ := hrecorded.path
  refine hrecorded.pairwise (hpairs.imp_of_mem fun {r r'} hr hr' hrel => ?_)
  have hsame : (job.mention? r).map (·.path) = (job.mention? r').map (·.path) :=
    (hpath r hr).trans (hpath r' hr').symm
  exact hrel.resolve_right fun hant => hapart r (hsub.subset hr) r' (hsub.subset hr') hant hsame

end Job

/-! ### A constant behind the same constant -/

namespace Sample

/-- A property of the result of a call, which is given a property of the same name. -/
def anticipatedSource : Source := .ofText "f(this[\"k\"])[\"k\"]"

/-- The tree of the source, its punctuation left out. -/
def anticipatedTree : Tree :=
  let inner : Forest :=
    .cons { type := "this", span := ⟨2, 6⟩, field := some "object" } .nil <|
    .cons { type := "string", span := ⟨7, 10⟩, field := some "index" } .nil .nil
  let arguments : Forest :=
    .cons { type := "subscript_expression", span := ⟨2, 11⟩ } inner .nil
  let call : Forest :=
    .cons { type := "identifier", span := ⟨0, 1⟩, field := some "function" } .nil <|
    .cons { type := "arguments", span := ⟨1, 12⟩, field := some "arguments" } arguments .nil
  let outer : Forest :=
    .cons { type := "call_expression", span := ⟨0, 12⟩, field := some "object" } call <|
    .cons { type := "string", span := ⟨13, 16⟩, field := some "index" } .nil .nil
  ⟨{ type := "program", span := ⟨0, 17⟩ },
    .cons { type := "subscript_expression", span := ⟨0, 17⟩ } outer .nil⟩

/-- The index of the source. -/
def anticipatedScopes : List IndexedScope :=
  [{ type := "program", span := ⟨0, 17⟩, depth := 0
     symbols := [("?.k", [⟨⟨13, 16⟩, true⟩, ⟨⟨7, 10⟩, false⟩]), ("f", [⟨⟨0, 1⟩, true⟩])] }]

/-- The task of indexing the source. -/
def anticipatedJob : Job := .ofRules anticipatedSource "k.js" ⟨false, "?", .ofTypes ["program"]⟩

theorem indexTree_anticipated :
    (anticipatedJob.indexTree anticipatedTree).result = .ok anticipatedScopes := by
  rw [Job.indexTree, Pass.run, Pass.walk_eq]
  decide +kernel

end Sample

/-- Occurrences need not be in the order of the text, and the declaring one need not come first
in it. -/
theorem Job.indexTree_not_inOrder :
    Sample.anticipatedTree.LaidOut ∧
      (Sample.anticipatedJob.indexTree Sample.anticipatedTree).result =
        .ok Sample.anticipatedScopes ∧
      ¬ ∀ s ∈ Sample.anticipatedScopes, ∀ e ∈ s.symbols,
        e.2.Pairwise fun o o' => o.span.start ≤ o'.span.start :=
  ⟨by decide, Sample.indexTree_anticipated, by decide⟩

theorem Job.indexTree_inOrder_samples :
    (Sample.anticipatedTree.LaidOut ∧
      (Sample.anticipatedJob.indexTree Sample.anticipatedTree).result =
        .ok Sample.anticipatedScopes ∧
      ∀ s ∈ Sample.anticipatedScopes, ∀ e ∈ s.symbols, ∃ recorders : List Site,
        recorders.Sublist Sample.anticipatedTree.numbered.sites ∧
          Sample.anticipatedJob.RecordedBy e recorders ∧
            recorders.Pairwise fun r r' => r.InOrder r' ∨ r.Anticipates r') ∧
    Sample.tree.LaidOut ∧
      ((Job.ofRules Sample.source "o.js" ⟨false, "?", .ofTypes Sample.types⟩).indexTree
        Sample.tree).result = .ok Sample.scopes ∧
      ∀ s ∈ Sample.scopes, ∀ e ∈ s.symbols,
        e.2.Pairwise fun o o' => o.span.start ≤ o'.span.start :=
  ⟨⟨by decide, Sample.indexTree_anticipated,
      (Job.indexTree_inOrder _ _ _ (by decide) Sample.indexTree_anticipated).1⟩,
    by decide, Sample.indexTree_eq,
    (Job.indexTree_inOrder _ _ _ (by decide) Sample.indexTree_eq).2 (by decide +kernel)⟩

end ScopeIndex
