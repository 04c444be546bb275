import Mathlib
import ScopeIndex.Proofs.Reading

/-!
# Numbers of nodes

A tree is numbered before it is walked.  The numbers tell its nodes apart, and nothing
else of a site depends on them: forgetting them gives the sites of the tree as the
parser delivered it.

## Main definitions

* `Forest.NumberedFrom` — the nodes of a row have consecutive numbers, in pre-order.
* `Forest.bare`, `Tree.bare`, `Site.bare` — the same without numbers.

## Main results

* `Tree.sites_numbered`, `Tree.map_filter_sites_numbered` — numbering a tree changes its
  sites in their numbers only.
* `Tree.exists_numbered` — every node has its numbered form.
* `Tree.nodup_sites_numbered` — numbers tell sites apart.
* `Forest.mem_lineage` — the nodes of a lineage are sites themselves.
-/

namespace ScopeIndex
namespace Forest

/-- The nodes of the row are numbered in pre-order from `n` on. -/
def NumberedFrom (n : Nat) : Forest → Prop
  | nil => True
  | cons l kids rest =>
      l.id = n ∧ kids.NumberedFrom (n + 1) ∧ rest.NumberedFrom (n + 1 + kids.size)

theorem numberedFrom_numbered (f : Forest) : ∀ n, (f.numbered n).NumberedFrom n := by
  induction f with
  | nil => intro n; trivial
  | cons l kids rest ihk ihr =>
    intro n
    refine ⟨rfl, ihk (n + 1), ?_⟩
    rw [size_numbered]
    exact ihr (n + 1 + kids.size)

/-- The same row without numbers. -/
def bare : Forest → Forest
  | nil => nil
  | cons l kids rest => cons { l with id := 0 } kids.bare rest.bare

@[simp] theorem bare_numbered (f : Forest) (n : Nat) : (f.numbered n).bare = f.bare := by
  induction f generalizing n with
  | nil => rfl
  | cons l kids rest ihk ihr => simp [numbered, bare, ihk, ihr]

@[simp] theorem child?_bare (field : String) (f : Forest) :
    f.bare.child? field =
      (f.child? field).map fun t => ⟨{ t.label with id := 0 }, t.children.bare⟩ := by
  induction f with
  | nil => rfl
  | cons l kids rest _ ihr =>
    rw [bare, child?, child?]
    split
    · rfl
    · exact ihr

theorem preorder_bare (f : Forest) :
    f.bare.preorder = f.preorder.map fun l => { l with id := 0 } := by
  induction f with
  | nil => rfl
  | cons l kids rest ihk ihr => simp [bare, preorder, ihk, ihr]

/-- All nodes of a lineage are named. -/
theorem named_of_mem_sites (f : Forest) : ∀ {above : List Tree} {s : Site}, s ∈ f.sites above →
    (∀ t ∈ above, t.label.named = true) → ∀ t ∈ s.lineage, t.label.named = true := by
  induction f with
  | nil => intro above s hs; cases hs
  | cons l kids rest ihk ihr =>
    intro above s hs habove
    cases hn : l.named with
    | true =>
      have hlineage : ∀ t ∈ (⟨l, kids⟩ : Tree) :: above, t.label.named = true := by
        simpa [hn] using habove
      rw [sites_cons_of_named hn, List.cons_append, List.mem_cons, List.mem_append] at hs
      rcases hs with rfl | hs | hs
      · exact hlineage
      · exact ihk hs hlineage
      · exact ihr hs habove
    | false =>
      rw [sites_cons_of_anonymous hn, List.mem_append] at hs
      rcases hs with hs | hs
      · exact ihk hs habove
      · exact ihr hs habove

/-- Every node of a lineage is a site of the row or stands above the row. -/
theorem mem_lineage (f : Forest) : ∀ {above : List Tree} {s : Site} {t : Tree}, s ∈ f.sites above →
    t ∈ s.lineage → t ∈ above ∨ ∃ r ∈ f.sites above, r.node = t := by
  induction f with
  | nil => intro above s t hs; cases hs
  | cons l kids rest ihk ihr =>
    intro above s t hs ht
    cases hn : l.named with
    | true =>
      rw [sites_cons_of_named hn, List.cons_append] at hs ⊢
      -- the lineage of the children has one node more, which is a site of the row
      have hdown : t ∈ (⟨l, kids⟩ : Tree) :: above → t ∈ above ∨ ∃ r ∈ ⟨⟨l, kids⟩, above⟩ ::
          (kids.sites (⟨l, kids⟩ :: above) ++ rest.sites above), r.node = t := by
        intro ht
        rcases List.mem_cons.mp ht with rfl | ht
        · exact .inr ⟨_, List.mem_cons_self, rfl⟩
        · exact .inl ht
      rw [List.mem_cons, List.mem_append] at hs
      rcases hs with rfl | hs | hs
      · exact hdown ht
      · rcases ihk hs ht with ht | ⟨r, hr, hrt⟩
        · exact hdown ht
        · exact .inr ⟨r, List.mem_cons_of_mem _ (List.mem_append_left _ hr), hrt⟩
      · refine (ihr hs ht).imp_right fun ⟨r, hr, hrt⟩ => ?_
        exact ⟨r, List.mem_cons_of_mem _ (List.mem_append_right _ hr), hrt⟩
    | false =>
      rw [sites_cons_of_anonymous hn] at hs ⊢
      rcases List.mem_append.mp hs with hs | hs
      · exact (ihk hs ht).imp_right fun ⟨r, hr, hrt⟩ => ⟨r, List.mem_append_left _ hr, hrt⟩
      · exact (ihr hs ht).imp_right fun ⟨r, hr, hrt⟩ => ⟨r, List.mem_append_right _ hr, hrt⟩

/-- The sites of a row are among its nodes, in the same order. -/
theorem sites_sublist (f : Forest) :
    ∀ above : List Tree, ((f.sites above).map (·.node.label)).Sublist f.preorder := by
  induction f with
  | nil => intro above; exact .slnil
  | cons l kids rest ihk ihr =>
    intro above
    cases hn : l.named with
    | true =>
      rw [sites_cons_of_named hn, List.map_append, List.map_cons]
      exact ((ihk _).cons_cons l).append (ihr above)
    | false =>
      rw [sites_cons_of_anonymous hn, List.map_append]
      exact ((ihk above).cons l).append (ihr above)

end Forest

theorem Tree.numberedFrom_numbered (t : Tree) : t.numbered.toForest.NumberedFrom 1 :=
  ⟨rfl, Forest.numberedFrom_numbered t.children 2, trivial⟩

/-- The same tree without numbers. -/
def Tree.bare (t : Tree) : Tree := ⟨{ t.label with id := 0 }, t.children.bare⟩

@[simp] theorem Tree.bare_numbered (t : Tree) : t.numbered.bare = t.bare := by
  simp [Tree.bare, Tree.numbered]

/-- The same site without numbers. -/
def Site.bare (s : Site) : Site := ⟨s.node.bare, s.above.map Tree.bare⟩

namespace Site

@[simp] theorem kind_bare (s : Site) : s.bare.kind = s.kind := rfl

@[simp] theorem parent?_bare (s : Site) : s.bare.parent? = s.parent?.map Site.bare := by
  obtain ⟨node, above⟩ := s
  cases above <;> rfl

@[simp] theorem isIn_bare (s : Site) (kind : Kind) : s.bare.isIn kind = s.isIn kind := by
  cases hp : s.parent? <;> simp [isIn, hp]

@[simp] theorem isMethodName_bare (s : Site) : s.bare.isMethodName = s.isMethodName := by
  have hpart : s.bare.isPart "name" .method = s.isPart "name" .method := by
    simp only [isPart, isIn_bare]
    rfl
  cases hp : s.parent? <;> simp [isMethodName, hpart, hp]

end Site

/-- Forgetting the numbers of a row forgets those of its sites. -/
theorem Forest.sites_bare (f : Forest) :
    ∀ above : List Tree, f.bare.sites (above.map Tree.bare) = (f.sites above).map Site.bare := by
  induction f with
  | nil => intro above; rfl
  | cons l kids rest ihk ihr =>
    intro above
    cases hn : l.named with
    | true =>
      rw [bare, sites_cons_of_named hn, sites_cons_of_named (l := { l with id := 0 }) hn, ihr,
        List.map_append, List.map_cons, ← ihk (⟨l, kids⟩ :: above)]
      rfl
    | false =>
      rw [bare, sites_cons_of_anonymous hn, sites_cons_of_anonymous (l := { l with id := 0 }) hn,
        ihk, ihr, List.map_append]

/-- Numbering a tree changes its sites in their numbers only. -/
theorem Tree.sites_numbered (t : Tree) :
    t.numbered.sites.map Site.bare = t.sites.map Site.bare := by
  have hbare : ∀ u : Tree, u.sites.map Site.bare = u.bare.sites := fun u =>
    (Forest.sites_bare u.toForest []).symm
  rw [hbare, hbare, bare_numbered]

/-- What does not depend on numbers can be read off the tree before it is numbered. -/
theorem Tree.map_filter_sites_numbered {β : Type} (t : Tree) {q : Site → Bool} {g : Site → β}
    (hq : ∀ s, q s.bare = q s) (hg : ∀ s, g s.bare = g s) :
    (t.numbered.sites.filter q).map g = (t.sites.filter q).map g := by
  have hbare : ∀ ss : List Site, (ss.filter q).map g = ((ss.map Site.bare).filter q).map g := by
    intro ss
    simp [List.filter_map, Function.comp_def, hq, hg]
  rw [hbare, sites_numbered, ← hbare]

theorem Tree.filterMap_sites_numbered {β : Type} (t : Tree) {g : Site → Option β}
    (hg : ∀ s, g s.bare = g s) : t.numbered.sites.filterMap g = t.sites.filterMap g := by
  have hbare : ∀ ss : List Site, ss.filterMap g = (ss.map Site.bare).filterMap g := by
    intro ss
    simp [List.filterMap_map, hg]
  rw [hbare, sites_numbered, ← hbare]

/-- Numbers tell the sites of a numbered tree apart. -/
theorem Tree.nodup_sites_numbered (t : Tree) : (t.numbered.sites.map Site.id).Nodup := by
  have hids : t.numbered.toForest.preorder.map (·.id) = List.range' 1 t.toForest.size :=
    Forest.preorder_numbered_ids 1 t.toForest
  have hsub := (t.numbered.toForest.sites_sublist []).map Label.id
  rw [hids, List.map_map] at hsub
  exact (List.nodup_range' ..).sublist hsub

/-- Every node has its numbered form. -/
theorem Tree.exists_numbered {t : Tree} {l : Label} (h : l ∈ t.toForest.preorder) :
    ∃ n, { l with id := n } ∈ t.numbered.toForest.preorder := by
  have hbare : t.numbered.toForest.bare = t.toForest.bare := by
    simp [Tree.toForest, Tree.numbered, Forest.bare]
  have hmem : { l with id := 0 } ∈ t.numbered.toForest.bare.preorder := by
    rw [hbare, Forest.preorder_bare]
    exact List.mem_map_of_mem h
  rw [Forest.preorder_bare] at hmem
  obtain ⟨l', hl', heq⟩ := List.mem_map.mp hmem
  have hl : l' = { l with id := l'.id } := by
    cases l'
    simp only [Label.mk.injEq, true_and] at heq ⊢
    exact heq
  exact ⟨l'.id, hl ▸ hl'⟩

end ScopeIndex
