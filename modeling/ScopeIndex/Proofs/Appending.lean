import Mathlib
import ScopeIndex.Proofs.Containment
import ScopeIndex.Proofs.Seclusion

/-!
# Source that is added at the end

Nodes that come behind all others in a tree have no say in what is recorded for the others.
They do not move the numbers of the nodes before them, nothing is read off the root if it has
no part in naming, and of the scopes before them they have the scope of the root in view and
no other.  So the scope of the root is the only one that they can add to, and it is added to
at the end: no occurrence is taken back, moved, or made to declare anew.

## Main definitions

* `Grown`, `IndexedScope.Extends` — more occurrences behind the known ones, and more keys
  behind the known ones.
* `Tree.append` — a tree with more nodes behind the children of its root.

## Main results

* `Tree.twins_keptSites` — the sites of a tree look the same with more nodes behind them.
* `Mention.grown_foldl`, `Mention.foldl_of_not_mem` — mentions add to tables at the end, and
  only to those in their view.
* `Document.indexTree_append` — **later nodes do not change what earlier ones have done.**
-/

namespace ScopeIndex

/-! ### Growing tables -/

/-- Every key keeps its place and its list grows at the end; further keys come behind. -/
inductive Grown : List (String × List Occurrence) → List (String × List Occurrence) → Prop
  /-- All keys are new. -/
  | nil (es : List (String × List Occurrence)) : Grown [] es
  /-- The first key is known. -/
  | cons {key : String} {os os' : List Occurrence} {es es' : List (String × List Occurrence)}
      (hos : os <+: os') (hes : Grown es es') : Grown ((key, os) :: es) ((key, os') :: es')

namespace Grown

variable {es es' : List (String × List Occurrence)}

theorem refl (es : List (String × List Occurrence)) : Grown es es := by
  induction es with
  | nil => exact .nil []
  | cons e es ih => exact .cons (List.prefix_refl _) ih

theorem insert (h : Grown es es') (key : String) (span : Span) :
    Grown es (SymbolTable.insert key span es') := by
  induction h with
  | nil es => exact .nil _
  | cons hos hes ih =>
    rw [SymbolTable.insert]
    split
    · exact .cons (hos.trans (List.prefix_append _ _)) hes
    · exact .cons hos ih

theorem keys (h : Grown es es') : es.map (·.1) <+: es'.map (·.1) := by
  induction h with
  | nil es => exact List.nil_prefix
  | cons _ _ ih => exact List.cons_prefix_cons.mpr ⟨rfl, ih⟩

theorem lookup (h : Grown es es') {key : String} {os : List Occurrence}
    (hos : es.lookup key = some os) : ∃ os', es'.lookup key = some os' ∧ os <+: os' := by
  induction h with
  | nil es => cases hos
  | @cons k ls ls' es es' hls _ ih =>
    rw [List.lookup_cons] at hos ⊢
    cases hkey : key == k with
    | true =>
      rw [hkey] at hos
      cases hos
      exact ⟨ls', rfl, hls⟩
    | false =>
      rw [hkey] at hos
      exact ih hos

end Grown

/-- The scope of the same node with more occurrences behind the known ones of each key, and more
keys behind the known ones. -/
structure IndexedScope.Extends (s s' : IndexedScope) : Prop where
  type : s.type = s'.type
  span : s.span = s'.span
  depth : s.depth = s'.depth
  /-- The keys of the first come first. -/
  keys : s.symbols.map (·.1) <+: s'.symbols.map (·.1)
  /-- Under each key, the occurrences of the first come first. -/
  lists : ∀ key os, s.symbols.lookup key = some os →
    ∃ os', s'.symbols.lookup key = some os' ∧ os <+: os'

namespace Mention

/-- Mentions add to a table at the end. -/
theorem grown_foldl (ms : List Mention) (k : Nat) : ∀ tables : Nat → SymbolTable,
    ∀ {es : List (String × List Occurrence)}, Grown es (tables k).entries →
      Grown es (ms.foldl place tables k).entries := by
  induction ms with
  | nil => intro tables es h; exact h
  | cons m ms ih =>
    intro tables es h
    refine ih (place tables m) ?_
    rw [place]
    split
    · exact h.insert _ _
    · exact h

/-- Mentions leave a table alone that they do not have in view. -/
theorem foldl_of_not_mem {ms : List Mention} {k : Nat} (h : ∀ m ∈ ms, k ∉ m.scopes) :
    ∀ tables : Nat → SymbolTable, ms.foldl place tables k = tables k := by
  induction ms with
  | nil => intro tables; rfl
  | cons m ms ih =>
    intro tables
    obtain ⟨hm, hms⟩ := List.forall_mem_cons.mp h
    have hother : m.target? tables ≠ some k := fun htarget => hm (mem_scopes_of_target? htarget)
    rw [List.foldl_cons, ih hms, place, if_neg hother]

end Mention

/-! ### Rows with more nodes behind them -/

namespace Forest

/-- More nodes behind a row do not move its numbers. -/
theorem numbered_append (f g : Forest) : ∀ n : Nat,
    (f.append g).numbered n = (f.numbered n).append (g.numbered (n + f.size)) := by
  induction f with
  | nil => intro n; rfl
  | cons l kids rest _ ihr =>
    intro n
    rw [append, numbered, numbered, append, ihr, size,
      show n + 1 + kids.size + rest.size = n + (1 + kids.size + rest.size) by omega]

theorem sites_row_append (f g : Forest) (above : List Tree) :
    (f.append g).sites above = f.sites above ++ g.sites above := by
  induction f with
  | nil => rfl
  | cons l kids rest _ ihr =>
    rw [append, sites_cons, ihr, sites_cons _ _ rest, List.append_assoc]

end Forest

namespace Job

variable {job : Job} (hid : ∀ l i, job.opens { l with id := i } = job.opens l)
include hid

/-- Twins that are not shifted mention the same. -/
theorem mentions_eq_of_twins {n : Nat} {ss ss' : List Site}
    (h : List.Forall₂ (Site.Twins n 0) ss ss') : job.mentions ss = job.mentions ss' := by
  have hshift : shift n 0 = id := by
    funext i
    simp [shift]
  have hsame : List.Forall₂ (· = ·) (job.mentions ss) (job.mentions ss') := by
    refine (mentions_twins hid h).imp fun m m' hm => ?_
    rw [hm.1, Mention.renumber, hshift, List.map_id]
  rwa [List.forall₂_eq_eq_eq] at hsame

/-- Twins that are not shifted have the same scopes. -/
theorem map_scopeAt_eq_of_twins {n : Nat} {ss ss' : List Site}
    (h : List.Forall₂ (Site.Twins n 0) ss ss') (tables : Nat → SymbolTable) :
    (job.scopeSites ss).map (job.scopeAt tables) =
      (job.scopeSites ss').map (job.scopeAt tables) := by
  have hscopes : List.Forall₂ (Site.Twins n 0) (job.scopeSites ss) (job.scopeSites ss') := by
    refine List.rel_filter (fun s s' hs => ?_) h
    change job.opens s.node.label = true ↔ job.opens s'.node.label = true
    rw [opens_twins hid (List.forall₂_cons.mp hs).1]
  rw [← List.forall₂_eq_eq_eq]
  refine List.rel_map (fun s s' hs => ?_) hscopes
  obtain ⟨hnode, habove⟩ := List.forall₂_cons.mp hs
  have htype := congrArg (fun t : Tree => t.label.type) hnode.outline
  have hspan := congrArg (fun t : Tree => t.label.span) hnode.outline
  have hnumber : s.id = s'.id := by
    refine Eq.trans hnode.shift ?_
    simp [shift, Site.id]
  simp only [scopeAt, hnumber, scopeIds_twins hid habove, List.length_map, IndexedScope.mk.injEq]
  exact ⟨htype, hspan, trivial, trivial⟩

end Job

/-! ### Trees -/

/-- The tree with more nodes behind the children of its root. -/
def Tree.append (t : Tree) (extra : Forest) : Tree := ⟨t.label, t.children.append extra⟩

/-- The sites of the nodes that are added to a tree. -/
def Tree.addedSites (t : Tree) (extra : Forest) : List Site :=
  (extra.numbered (2 + t.children.size)).sites [(t.append extra).numbered]

/-- The sites that a tree had before nodes were added, in the longer tree. -/
def Tree.keptSites (t : Tree) (extra : Forest) : List Site :=
  (t.children.numbered 2).sites [(t.append extra).numbered]

namespace Tree

variable {t : Tree} {extra : Forest}

theorem sites_append_numbered (hn : t.label.named = true) :
    (t.append extra).numbered.sites =
      ⟨(t.append extra).numbered, []⟩ :: (t.keptSites extra ++ t.addedSites extra) := by
  have hroot : (t.append extra).numbered.label.named = true := hn
  rw [sites_eq_cons hroot, keptSites, addedSites, ← Forest.sites_row_append,
    ← Forest.numbered_append]
  rfl

/-- If nothing is read off the root, its children look the same in both trees. -/
theorem twins_keptSites (hk : t.label.kind = .other) :
    List.Forall₂ (Site.Twins 0 0) (t.numbered.children.sites [t.numbered])
      (t.keptSites extra) := by
  have hroot : Tree.Twins 0 0 t.numbered (t.append extra).numbered := by
    refine ⟨?_, Nat.one_ne_zero, rfl⟩
    have hkind : Label.kind { t.label with id := 1 } = .other := hk
    simp only [outline, numbered, append, hkind, if_true]
  exact Forest.twins_sites_numbered t.children (fun i _ => ⟨by omega, by simp [shift]⟩)
    (.cons hroot .nil)

end Tree

namespace Job

variable {job : Job} {t : Tree} {extra : Forest}

/-- The nodes that are added have no scope of the shorter tree in view but that of the root. -/
theorem view_of_added {m : Mention} (hm : m ∈ job.mentions (t.addedSites extra)) {k : Nat}
    (hk : k ∈ m.scopes) : k = 1 ∨ 2 + t.children.size ≤ k := by
  obtain ⟨s, hs, hsm⟩ := List.mem_filterMap.mp hm
  obtain ⟨between, habove, hids⟩ :=
    Forest.exists_above_eq _ (Forest.numberedFrom_numbered extra _) hs
  obtain ⟨u, hu, rfl⟩ := List.mem_map.mp (scopes_subset_of_mention? hsm hk)
  have hlineage : u ∈ (s.node :: between) ++ [(t.append extra).numbered] := by
    rw [List.cons_append, ← habove]
    exact List.mem_of_mem_filter hu
  rcases List.mem_append.mp hlineage with hu | hu
  · exact .inr (hids u hu).1
  · rw [List.mem_singleton.mp hu]
    exact .inl rfl

/-- A root that has no part in naming mentions nothing. -/
theorem mentions_of_root (job : Job) {rest : List Site} (hk : t.label.kind = .other)
    (hsites : t.numbered.sites = ⟨t.numbered, []⟩ :: rest) :
    job.mentions t.numbered.sites = job.mentions rest := by
  have hkind : Site.kind ⟨t.numbered, []⟩ = .other := hk
  rw [hsites, mentions, List.filterMap_cons_none (job.mention?_of_other hkind)]
  rfl

/-- A root that opens a scope opens the first. -/
theorem reading_of_root {rest : List Site} (ho : job.opens t.numbered.label = true)
    (hsites : t.numbered.sites = ⟨t.numbered, []⟩ :: rest) :
    job.reading t = job.scopeAt (job.tables t.numbered.sites) ⟨t.numbered, []⟩ ::
      (job.scopeSites rest).map (job.scopeAt (job.tables t.numbered.sites)) := by
  have hscopes : job.scopeSites t.numbered.sites = ⟨t.numbered, []⟩ :: job.scopeSites rest := by
    rw [hsites]
    exact List.filter_cons_of_pos (p := fun s : Site => job.opens s.node.label) ho
  rw [reading_eq_map, hscopes, List.map_cons]

section

variable (hid : ∀ l i, job.opens { l with id := i } = job.opens l) (hn : t.label.named = true)
  (hk : t.label.kind = .other)
include hid hn hk

/-- The nodes that are added add to the tables of the shorter tree. -/
theorem tables_append : job.tables (t.append extra).numbered.sites =
    (job.mentions (t.addedSites extra)).foldl Mention.place (job.tables t.numbered.sites) := by
  have hlong := job.mentions_of_root (t := t.append extra) hk (Tree.sites_append_numbered hn)
  have hshort := job.mentions_of_root hk (Tree.sites_eq_cons (t := t.numbered) hn)
  rw [tables, hlong, mentions_append, ← mentions_eq_of_twins hid (Tree.twins_keptSites hk),
    ← hshort, List.foldl_append, tables]

/-- Below the root the tables of the shorter tree stay as they were. -/
theorem tables_append_of_mem {s : Site} (hs : s ∈ t.keptSites extra) :
    job.tables (t.append extra).numbered.sites s.id = job.tables t.numbered.sites s.id := by
  obtain ⟨between, -, hids⟩ :=
    Forest.exists_above_eq _ (Forest.numberedFrom_numbered t.children 2) hs
  have hsid := hids s.node List.mem_cons_self
  rw [Forest.size_numbered] at hsid
  rw [tables_append hid hn hk]
  refine Mention.foldl_of_not_mem (fun m hm hmem => ?_) _
  have hview := view_of_added hm hmem
  unfold Site.id at hview
  omega

/-- **The scopes of a tree with more nodes behind its own**, if its root has no part in naming
and opens a scope. -/
theorem reading_append (ho : job.opens t.label = true) :
    ∃ outer outer' inner later, job.reading t = outer :: inner ∧
      job.reading (t.append extra) = outer' :: inner ++ later ∧ outer.Extends outer' := by
  have hopen : job.opens t.numbered.label = true := (hid t.label 1).trans ho
  have hopen' : job.opens (t.append extra).numbered.label = true := (hid t.label 1).trans ho
  have hinner : (job.scopeSites (t.keptSites extra)).map
        (job.scopeAt (job.tables (t.append extra).numbered.sites)) =
      (job.scopeSites (t.numbered.children.sites [t.numbered])).map
        (job.scopeAt (job.tables t.numbered.sites)) := by
    rw [map_scopeAt_eq_of_twins hid (Tree.twins_keptSites hk)]
    refine List.map_congr_left fun s hs => ?_
    rw [scopeAt, scopeAt, tables_append_of_mem hid hn hk (List.mem_of_mem_filter hs)]
  have hgrown : Grown (job.tables t.numbered.sites 1).entries
      (job.tables (t.append extra).numbered.sites 1).entries := by
    rw [tables_append hid hn hk]
    exact Mention.grown_foldl _ 1 _ (.refl _)
  have hshort := reading_of_root hopen (Tree.sites_eq_cons (t := t.numbered) hn)
  have hlong := reading_of_root hopen' (Tree.sites_append_numbered hn)
  rw [scopeSites_append, List.map_append, hinner, ← List.cons_append] at hlong
  exact ⟨_, _, _, _, hshort, hlong, rfl, rfl, rfl, hgrown.keys, fun _ _ => hgrown.lookup⟩

end

end Job

/-! ### Documents -/

namespace Document

/-- **Later nodes do not change what earlier ones have done.**  Let the root of a tree have no
part in naming and open a scope.  With more nodes behind its children the tree has an index as
before.  The scopes of the shorter tree come first in it, unchanged but for that of the root;
there more keys come behind the known ones, and more occurrences behind the known ones of each
key. -/
theorem indexTree_append (source : Source) (path marker : String) (tolerant : Bool)
    (types : List String) (tree : Tree) (extra : Forest) (hn : tree.label.named = true)
    (hk : tree.label.kind = .other) (ht : tree.label.type ∈ types) :
    let rules : IndexRules := ⟨tolerant, marker, .ofTypes types⟩
    ∃ outer outer' inner later,
      (indexTree source tree path rules).result = .ok (outer :: inner) ∧
      (indexTree source (tree.append extra) path rules).result = .ok (outer' :: inner ++ later) ∧
      outer.Extends outer' := by
  intro rules
  have hindex : ∀ t : Tree, t.label = tree.label → (indexTree source t path rules).result =
      .ok ((Job.ofRules source path rules).reading t) := by
    intro t hlabel
    obtain ⟨scopes, hscopes⟩ := @exists_indexTree_of_root source t path marker tolerant types
      (hlabel ▸ hn) (hlabel ▸ ht)
    rw [← (Job.indexTree_settled hscopes).2]
    exact hscopes
  have ho : (Boundary.ofTypes types).opens tree.label = true := by
    rw [Boundary.opens_of_named _ hn, List.contains_iff_mem]
    exact ht
  obtain ⟨outer, outer', inner, later, hshort, hlong, hextends⟩ :=
    @Job.reading_append (Job.ofRules source path rules) tree extra (fun _ _ => rfl) hn hk ho
  exact ⟨outer, outer', inner, later, by rw [hindex tree rfl, hshort],
    by rw [hindex (tree.append extra) rfl, hlong], hextends⟩

end Document

/-! ### Two names behind a function -/

namespace Sample

/-- A name and a function, and behind them the name again and a new one. -/
def continuedSource : Source := .ofText "a,()=>b,a,c"

/-- The name and the function. -/
def continuedTree : Tree :=
  ⟨{ type := "program", span := ⟨0, 11⟩ },
    .cons { type := "identifier", span := ⟨0, 1⟩ } .nil <|
    .cons { type := "arrow_function", span := ⟨2, 7⟩ }
      (.cons { type := "identifier", span := ⟨6, 7⟩, field := some "body" } .nil .nil) .nil⟩

/-- What comes behind them. -/
def continuedExtra : Forest :=
  .cons { type := "identifier", span := ⟨8, 9⟩ } .nil <|
  .cons { type := "identifier", span := ⟨10, 11⟩ } .nil .nil

end Sample

theorem Document.indexTree_append_names :
    let rules : IndexRules := ⟨false, "?", .ofTypes ["program", "arrow_function"]⟩
    Sample.continuedTree.label.named = true ∧ Sample.continuedTree.label.kind = .other ∧
      Sample.continuedTree.label.type ∈ ["program", "arrow_function"] ∧
      ∃ outer outer' inner later,
        (indexTree Sample.continuedSource Sample.continuedTree "c.js" rules).result =
          .ok (outer :: inner) ∧
        (indexTree Sample.continuedSource (Sample.continuedTree.append Sample.continuedExtra)
          "c.js" rules).result = .ok (outer' :: inner ++ later) ∧
        outer.Extends outer' :=
  ⟨rfl, by decide, by decide, indexTree_append Sample.continuedSource "c.js" "?" false
    ["program", "arrow_function"] Sample.continuedTree Sample.continuedExtra rfl (by decide)
    (by decide)⟩

end ScopeIndex
