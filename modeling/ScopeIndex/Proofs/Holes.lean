import Mathlib
import ScopeIndex.Proofs.Outline

/-!
# Rows with a place left open

To say what a node does to its surroundings, the surroundings are taken as a row with a
place left open, and the place is filled twice: with the node and with the node without
its children.  Both rows are numbered in pre-order, so a number stays the same up to the
open place and is shifted behind it.  Around the place the two rows have the same sites
up to that shift, if nothing can be read off the children of the node.

## Main definitions

* `Hole`, `Hole.fill` — a row with a place left open, and what it is with a tree there.
* `Tree.Twins`, `Site.Twins` — alike up to the shift.

## Main results

* `Hole.splits_sites` — the sites of the two rows, with twins around the open place.
* `Job.mention?_twins` — twins record the same, in view of the same scopes.
-/

namespace ScopeIndex

/-- A row in which the place of one subtree is left open. -/
inductive Hole where
  /-- The place is the first one. -/
  | here (rest : Forest)
  /-- The place is below the first node. -/
  | inside (label : Label) (kids : Hole) (rest : Forest)
  /-- The place is behind the first subtree. -/
  | behind (label : Label) (kids : Forest) (rest : Hole)
  deriving DecidableEq, Repr

namespace Hole

/-- The row with a tree at the open place. -/
def fill (t : Tree) : Hole → Forest
  | here rest => .cons t.label t.children rest
  | inside l kids rest => .cons l (kids.fill t) rest
  | behind l kids rest => .cons l kids (rest.fill t)

/-- The nodes before the open place, in pre-order. -/
def before : Hole → List Label
  | here _ => []
  | inside l kids _ => l :: kids.before
  | behind l kids rest => l :: kids.preorder ++ rest.before

theorem outline_fill {t t' : Tree} (h : t.outline = t'.outline) (hole : Hole) :
    (hole.fill t).outline = (hole.fill t').outline := by
  induction hole with
  | here rest =>
    have hlabel := congrArg Tree.label h
    have hkids := congrArg Tree.children h
    simp only [Tree.outline] at hlabel hkids
    simp only [fill, Forest.outline, hlabel, hkids]
  | inside l kids rest ih => rw [fill, fill, Forest.outline, Forest.outline, ih]
  | behind l kids rest ih => rw [fill, fill, Forest.outline, Forest.outline, ih]

/-- The open place adds the nodes of the tree that is put there. -/
theorem size_fill (t : Tree) (hole : Hole) :
    (hole.fill t).size = (hole.fill ⟨t.label, .nil⟩).size + t.children.size := by
  induction hole with
  | here rest => simp only [fill, Forest.size]; omega
  | inside l kids rest ih => simp only [fill, Forest.size, ih]; omega
  | behind l kids rest ih => simp only [fill, Forest.size, ih]; omega

theorem length_before_lt (t : Tree) (hole : Hole) : hole.before.length < (hole.fill t).size := by
  induction hole with
  | here rest => simp only [before, fill, Forest.size, List.length_nil]; omega
  | inside l kids rest ih => simp only [before, fill, Forest.size, List.length_cons]; omega
  | behind l kids rest ih =>
    simp only [before, fill, Forest.size, List.cons_append, List.length_cons, List.length_append,
      Forest.length_preorder]
    omega

end Hole

/-! ### Twins -/

/-- Make room for `size` numbers behind `n`. -/
def shift (n size i : Nat) : Nat := if i ≤ n then i else i + size

theorem shift_injective (n size : Nat) : Function.Injective (shift n size) := by
  intro i j h
  unfold shift at h
  split at h <;> split at h <;> omega

/-- The trees are alike, except for their numbers and for what cannot be read off them.
The number of the first is that of the second, which is not `n`, shifted. -/
structure Tree.Twins (n size : Nat) (t t' : Tree) : Prop where
  outline : t.outline = t'.outline
  ne : t'.label.id ≠ n
  shift : t.label.id = shift n size t'.label.id

/-- The sites and all the nodes above them are twins. -/
def Site.Twins (n size : Nat) (s s' : Site) : Prop :=
  List.Forall₂ (Tree.Twins n size) s.lineage s'.lineage

theorem Forest.outline_numbered (f : Forest) (n : Nat) : (f.numbered n).outline = f.outline := by
  rw [← outline_bare, bare_numbered, outline_bare]

section
variable {n size : Nat}

/-- The sites of one subtree are twins if its root and the sites below it are. -/
theorem Forest.twins_sites_cons {l l' : Label} {kids kids' : Forest} {above above' : List Tree}
    (hnamed : l.named = l'.named) (h : Tree.Twins n size ⟨l, kids⟩ ⟨l', kids'⟩)
    (hab : List.Forall₂ (Tree.Twins n size) above above')
    (hkids : ∀ {above above'}, List.Forall₂ (Tree.Twins n size) above above' →
      List.Forall₂ (Site.Twins n size) (kids.sites above) (kids'.sites above')) :
    List.Forall₂ (Site.Twins n size) ((Forest.cons l kids .nil).sites above)
      ((Forest.cons l' kids' .nil).sites above') := by
  cases hn : l.named with
  | true =>
    rw [sites_cons_of_named hn, sites_cons_of_named (hnamed ▸ hn), sites, List.append_nil,
      sites, List.append_nil]
    exact .cons (.cons h hab) (hkids (.cons h hab))
  | false =>
    rw [sites_cons_of_anonymous hn, sites_cons_of_anonymous (hnamed ▸ hn), sites, List.append_nil,
      sites, List.append_nil]
    exact hkids hab

/-- A row that is numbered twice has twin sites, if its numbers are shifted. -/
theorem Forest.twins_sites_numbered (f : Forest) : ∀ {j j' : Nat} {above above' : List Tree},
    (∀ i < f.size, j' + i ≠ n ∧ j + i = shift n size (j' + i)) →
    List.Forall₂ (Tree.Twins n size) above above' →
    List.Forall₂ (Site.Twins n size) ((f.numbered j).sites above)
      ((f.numbered j').sites above') := by
  induction f with
  | nil => intro j j' above above' _ _; exact .nil
  | cons l kids rest ihk ihr =>
    intro j j' above above' hshift hab
    have hroot := hshift 0 (by simp only [Forest.size]; omega)
    have hkids : ∀ i < kids.size, j' + 1 + i ≠ n ∧ j + 1 + i = shift n size (j' + 1 + i) := by
      intro i hi
      have := hshift (1 + i) (by simp only [Forest.size]; omega)
      rwa [← Nat.add_assoc, ← Nat.add_assoc] at this
    have hrest : ∀ i < rest.size, j' + 1 + kids.size + i ≠ n ∧
        j + 1 + kids.size + i = shift n size (j' + 1 + kids.size + i) := by
      intro i hi
      have := hshift (1 + kids.size + i) (by simp only [Forest.size]; omega)
      simpa only [← Nat.add_assoc] using this
    rw [numbered, numbered, sites_cons, sites_cons _ _ (rest.numbered (j' + 1 + kids.size))]
    refine List.rel_append ?_ (ihr hrest hab)
    refine twins_sites_cons rfl ⟨?_, hroot.1, hroot.2⟩ hab fun hab => ihk hkids hab
    simp only [Tree.outline, outline_numbered]
    rfl

end

/-- The nodes of a lineage that stand in the row have numbers of the row. -/
theorem Forest.exists_above_eq (f : Forest) : ∀ {k : Nat} {above : List Tree} {s : Site},
    f.NumberedFrom k → s ∈ f.sites above →
    ∃ between, s.above = between ++ above ∧
      ∀ t ∈ s.node :: between, k ≤ t.label.id ∧ t.label.id < k + f.size := by
  induction f with
  | nil => intro k above s _ hs; cases hs
  | cons l kids rest ihk ihr =>
    intro k above s hnum hs
    obtain ⟨rfl, hnumk, hnumr⟩ := hnum
    have hsize : (cons l kids rest).size = 1 + kids.size + rest.size := rfl
    -- a site behind the first subtree, whatever the first node is
    have hbehind : s ∈ rest.sites above → ∃ between, s.above = between ++ above ∧
        ∀ t ∈ s.node :: between,
          l.id ≤ t.label.id ∧ t.label.id < l.id + (cons l kids rest).size := by
      intro hs
      obtain ⟨between, habove, hids⟩ := ihr hnumr hs
      refine ⟨between, habove, fun t ht => ?_⟩
      have := hids t ht
      omega
    cases hn : l.named with
    | true =>
      rw [sites_cons_of_named hn, List.cons_append, List.mem_cons, List.mem_append] at hs
      rcases hs with rfl | hs | hs
      · refine ⟨[], rfl, fun t ht => ?_⟩
        rw [List.mem_singleton.mp ht]
        simp only
        omega
      · obtain ⟨between, habove, hids⟩ := ihk hnumk hs
        refine ⟨between ++ [⟨l, kids⟩], by rw [habove, List.append_assoc]; rfl, fun t ht => ?_⟩
        rw [← List.cons_append, List.mem_append, List.mem_singleton] at ht
        rcases ht with ht | rfl
        · have := hids t ht
          omega
        · simp only
          omega
      · exact hbehind hs
    | false =>
      rw [sites_cons_of_anonymous hn, List.mem_append] at hs
      rcases hs with hs | hs
      · obtain ⟨between, habove, hids⟩ := ihk hnumk hs
        refine ⟨between, habove, fun t ht => ?_⟩
        have := hids t ht
        omega
      · exact hbehind hs

theorem Forest.countP_sites_numbered {q : Label → Bool} (hid : ∀ l i, q { l with id := i } = q l)
    (hnamed : ∀ l, l.named = false → q l = false) (f : Forest) : ∀ (j : Nat) (above : List Tree),
    ((f.numbered j).sites above).countP (fun s => q s.node.label) = f.preorder.countP q := by
  induction f with
  | nil => intro j above; rfl
  | cons l kids rest ihk ihr =>
    intro j above
    cases hn : l.named with
    | true =>
      rw [numbered, preorder, sites_cons_of_named (l := { l with id := j }) hn,
        List.countP_append, List.countP_cons, List.countP_append, List.countP_cons, ihk, ihr, hid]
    | false =>
      rw [numbered, preorder, sites_cons_of_anonymous (l := { l with id := j }) hn,
        List.countP_append, ihk, ihr, List.countP_append, List.countP_cons, hnamed l hn]
      rfl

/-! ### Sites around an open place -/

/-- The two lists have the sites of the node numbered `n`, with children and without, in
their midst, and twins around them.  Before it, `count` sites satisfy `q`. -/
def Hole.Splits (l : Label) (kids : Forest) (n : Nat) (q : Label → Bool) (count : Nat)
    (ss ss' : List Site) : Prop :=
  ∃ up up' before before' after after',
    ss = before ++ ((Forest.cons l kids .nil).numbered n).sites up ++ after ∧
    ss' = before' ++ ((Forest.cons l .nil .nil).numbered n).sites up' ++ after' ∧
    List.Forall₂ (Site.Twins n kids.size) before before' ∧
    List.Forall₂ (Site.Twins n kids.size) after after' ∧
    before.countP (fun s => q s.node.label) = count

namespace Hole

variable {l : Label} {kids : Forest} {n count : Nat} {q : Label → Bool} {ss ss' : List Site}

theorem Splits.self (up up' : List Tree) :
    Splits l kids n q 0 (((Forest.cons l kids .nil).numbered n).sites up)
      (((Forest.cons l .nil .nil).numbered n).sites up') :=
  ⟨up, up', [], [], [], [], by simp, by simp, .nil, .nil, rfl⟩

theorem Splits.before {b b' : List Site} (h : Splits l kids n q count ss ss')
    (hb : List.Forall₂ (Site.Twins n kids.size) b b') :
    Splits l kids n q (b.countP (fun s => q s.node.label) + count) (b ++ ss) (b' ++ ss') := by
  obtain ⟨up, up', before, before', after, after', rfl, rfl, hbefore, hafter, rfl⟩ := h
  exact ⟨up, up', b ++ before, b' ++ before', after, after', by simp only [List.append_assoc],
    by simp only [List.append_assoc], List.rel_append hb hbefore, hafter, List.countP_append⟩

theorem Splits.behind {a a' : List Site} (h : Splits l kids n q count ss ss')
    (ha : List.Forall₂ (Site.Twins n kids.size) a a') :
    Splits l kids n q count (ss ++ a) (ss' ++ a') := by
  obtain ⟨up, up', before, before', after, after', rfl, rfl, hbefore, hafter, hcount⟩ := h
  exact ⟨up, up', before, before', after ++ a, after' ++ a', by simp only [List.append_assoc],
    by simp only [List.append_assoc], hbefore, List.rel_append hafter ha, hcount⟩

/-- Behind the open place numbers are shifted. -/
theorem twins_sites_behind (f : Forest) {j j' : Nat} {above above' : List Tree} (hj : n < j')
    (hshift : j = j' + kids.size) (hab : List.Forall₂ (Tree.Twins n kids.size) above above') :
    List.Forall₂ (Site.Twins n kids.size) ((f.numbered j).sites above)
      ((f.numbered j').sites above') := by
  refine Forest.twins_sites_numbered f (fun i _ => ⟨by omega, ?_⟩) hab
  rw [shift, if_neg (by omega)]
  omega

/-- Before the open place numbers stay the same. -/
theorem twins_sites_before (f : Forest) {j : Nat} {above above' : List Tree}
    (hj : j + f.size ≤ n) (hab : List.Forall₂ (Tree.Twins n kids.size) above above') :
    List.Forall₂ (Site.Twins n kids.size) ((f.numbered j).sites above)
      ((f.numbered j).sites above') := by
  refine Forest.twins_sites_numbered f (fun i _ => ⟨by omega, ?_⟩) hab
  rw [shift, if_pos (by omega)]

/-- A node around the open place is its own twin. -/
theorem twins_around (l' : Label) {k : Nat} {f f' : Forest} (hlt : k < n)
    (h : f.outline = f'.outline) :
    Tree.Twins n kids.size ⟨{ l' with id := k }, f.numbered (k + 1)⟩
      ⟨{ l' with id := k }, f'.numbered (k + 1)⟩ := by
  refine ⟨?_, by simp only; omega, ?_⟩
  · simp only [Tree.outline, Forest.outline_numbered, h]
  · rw [shift, if_pos (by simp only; omega)]

/-- **The sites around an open place.**  If the place is filled with a node from whose
children nothing can be read off, or with the same node without children, the sites
before it and behind it are twins. -/
theorem splits_sites (hk : l.kind = .other) (hid : ∀ l i, q { l with id := i } = q l)
    (hnamed : ∀ l, l.named = false → q l = false) (hole : Hole) :
    ∀ {k : Nat} {above above' : List Tree}, n = k + hole.before.length →
    List.Forall₂ (Tree.Twins n kids.size) above above' →
    Splits l kids n q (hole.before.countP q) (((hole.fill ⟨l, kids⟩).numbered k).sites above)
      (((hole.fill ⟨l, .nil⟩).numbered k).sites above') := by
  have houtline : (⟨l, kids⟩ : Tree).outline = (⟨l, .nil⟩ : Tree).outline := by
    simp [Tree.outline, hk]
  induction hole with
  | here rest =>
    intro k above above' hn hab
    obtain rfl : n = k := hn
    rw [fill, fill, Forest.numbered, Forest.numbered, Forest.sites_cons,
      Forest.sites_cons _ _ (rest.numbered _) above']
    exact (Splits.self above above').behind
      (twins_sites_behind rest (Nat.lt_add_one n) (by rw [Forest.size, Nat.add_zero]) hab)
  | inside l' h rest ih =>
    intro k above above' hn hab
    rw [before, List.length_cons] at hn
    have hlt := length_before_lt ⟨l, .nil⟩ h
    have hsize : (h.fill ⟨l, kids⟩).size = (h.fill ⟨l, .nil⟩).size + kids.size :=
      size_fill ⟨l, kids⟩ h
    have hrest : List.Forall₂ (Site.Twins n kids.size)
        ((rest.numbered (k + 1 + (h.fill ⟨l, kids⟩).size)).sites above)
        ((rest.numbered (k + 1 + (h.fill ⟨l, .nil⟩).size)).sites above') :=
      twins_sites_behind rest (by omega) (by omega) hab
    cases hl : l'.named with
    | true =>
      have hroot : Tree.Twins n kids.size
          ⟨{ l' with id := k }, (h.fill ⟨l, kids⟩).numbered (k + 1)⟩
          ⟨{ l' with id := k }, (h.fill ⟨l, .nil⟩).numbered (k + 1)⟩ :=
        twins_around l' (by omega) (outline_fill houtline h)
      have hkids := @ih (k + 1) _ _ (by omega) (.cons hroot hab)
      have hfirst : List.Forall₂ (Site.Twins n kids.size)
          [⟨⟨{ l' with id := k }, (h.fill ⟨l, kids⟩).numbered (k + 1)⟩, above⟩]
          [⟨⟨{ l' with id := k }, (h.fill ⟨l, .nil⟩).numbered (k + 1)⟩, above'⟩] :=
        .cons (.cons hroot hab) .nil
      have hcount := (hkids.before hfirst).behind hrest
      rw [fill, fill, Forest.numbered, Forest.numbered,
        Forest.sites_cons_of_named (l := { l' with id := k }) hl,
        Forest.sites_cons_of_named (l := { l' with id := k }) hl, before, List.countP_cons,
        Nat.add_comm]
      simpa [hid] using hcount
    | false =>
      have hkids := @ih (k + 1) _ _ (by omega) hab
      rw [fill, fill, Forest.numbered, Forest.numbered,
        Forest.sites_cons_of_anonymous (l := { l' with id := k }) hl,
        Forest.sites_cons_of_anonymous (l := { l' with id := k }) hl, before, List.countP_cons,
        hnamed l' hl]
      exact hkids.behind hrest
  | behind l' g h ih =>
    intro k above above' hn hab
    simp only [before, List.cons_append, List.length_cons, List.length_append,
      Forest.length_preorder] at hn
    have hrest := @ih (k + 1 + g.size) _ _ (by omega) hab
    have hfirst : List.Forall₂ (Site.Twins n kids.size)
        (((Forest.cons l' g .nil).numbered k).sites above)
        (((Forest.cons l' g .nil).numbered k).sites above') :=
      twins_sites_before _ (by simp only [Forest.size]; omega) hab
    have hcount := hrest.before hfirst
    rw [Forest.countP_sites_numbered hid hnamed, Forest.preorder, Forest.preorder,
      List.append_nil] at hcount
    rw [fill, fill, Forest.numbered, Forest.numbered, Forest.sites_cons,
      Forest.sites_cons _ _ ((h.fill ⟨l, .nil⟩).numbered _) above', before, List.countP_append]
    exact hcount

/-- The numbered sites of a tree with a place left open, filled with a node that has no
part in naming, or with the same node without children. -/
theorem splits_numbered {hole : Hole} {tree tree' : Tree}
    (hid : ∀ l i, q { l with id := i } = q l) (hnamed : ∀ l, l.named = false → q l = false)
    (hk : l.kind = .other) (h : tree.toForest = hole.fill ⟨l, kids⟩)
    (h' : tree'.toForest = hole.fill ⟨l, .nil⟩) :
    Splits l kids (1 + hole.before.length) q (hole.before.countP q) tree.numbered.sites
      tree'.numbered.sites := by
  have hsites : ∀ t : Tree, t.numbered.sites = (t.toForest.numbered 1).sites [] := fun _ => rfl
  rw [hsites, hsites, h, h']
  exact splits_sites hk hid hnamed hole rfl .nil

end Hole

/-! ### What twins record -/

/-- A mention in view of other scopes. -/
def Mention.renumber (σ : Nat → Nat) (m : Mention) : Mention := { m with scopes := m.scopes.map σ }

theorem Site.Twins.outline {n size : Nat} {s s' : Site} (h : Site.Twins n size s s') :
    s.outline = s'.outline := by
  have hmap : s.lineage.map Tree.outline = s'.lineage.map Tree.outline :=
    List.forall₂_eq_eq_eq ▸ (List.rel_map (fun _ _ ht => ht.outline) h)
  obtain ⟨hnode, habove⟩ := List.cons.inj hmap
  rw [Site.outline, Site.outline, hnode, habove]

theorem Tree.Twins.ne_of_mem {n size : Nat} {ts ts' : List Tree}
    (h : List.Forall₂ (Tree.Twins n size) ts ts') : ∀ t' ∈ ts', t'.label.id ≠ n := by
  induction h with
  | nil => intro t' ht'; cases ht'
  | cons ht _ ih =>
    intro t' ht'
    rcases List.mem_cons.mp ht' with rfl | ht'
    · exact ht.ne
    · exact ih t' ht'

namespace Job

variable {job : Job} {n size : Nat} (hid : ∀ l i, job.opens { l with id := i } = job.opens l)
include hid

theorem opens_outline (t : Tree) : job.opens t.outline.label = job.opens t.label := hid t.label 0

theorem opens_twins {t t' : Tree} (h : Tree.Twins n size t t') :
    job.opens t.label = job.opens t'.label := by
  rw [← opens_outline hid, h.outline, opens_outline hid]

theorem scopeIds_twins {ts ts' : List Tree} (h : List.Forall₂ (Tree.Twins n size) ts ts') :
    job.scopeIds ts = (job.scopeIds ts').map (shift n size) := by
  induction h with
  | nil => rfl
  | @cons t t' ts ts' ht _ ih =>
    cases ho : job.opens t'.label with
    | true =>
      rw [job.scopeIds_cons_of_opens ts ((opens_twins hid ht).trans ho),
        job.scopeIds_cons_of_opens ts' ho, List.map_cons, ih, ht.shift]
    | false =>
      rw [job.scopeIds_cons_of_not_opens ts ((opens_twins hid ht).trans ho),
        job.scopeIds_cons_of_not_opens ts' ho, ih]

theorem contextOf_twins {ts ts' : List Tree} (h : List.Forall₂ (Tree.Twins n size) ts ts')
    (scope : Option Nat) :
    job.contextOf (scope.map (shift n size)) ts = job.contextOf scope ts' := by
  induction h with
  | nil => rfl
  | @cons t t' ts ts' ht hts ih =>
    have hsite : Site.Twins n size ⟨t, ts⟩ ⟨t', ts'⟩ := .cons ht hts
    have hname : job.literalName? ⟨t, ts⟩ = job.literalName? ⟨t', ts'⟩ := by
      rw [← literalName?_outline, hsite.outline, literalName?_outline]
    have hscope : (job.scopeIds (t :: ts)).head? = scope.map (shift n size) ↔
        (job.scopeIds (t' :: ts')).head? = scope := by
      rw [scopeIds_twins hid (.cons ht hts), List.head?_map]
      exact (Option.map_injective (shift_injective n size)).eq_iff
    simp only [contextOf, ih, hname, hscope]

/-- **Twins record the same**, in view of the same scopes. -/
theorem mention?_twins {s s' : Site} (h : Site.Twins n size s s') :
    job.mention? s = (job.mention? s').map (Mention.renumber (shift n size)) := by
  have hsaying : job.saying? s = job.saying? s' := by
    rw [← saying?_outline, h.outline, saying?_outline]
  rw [mention?_eq_map_saying?, mention?_eq_map_saying?, hsaying, Option.map_map]
  congr 1
  funext y
  have habove : List.Forall₂ (Tree.Twins n size) s.above s'.above := (List.forall₂_cons.mp h).2
  have hscopes : job.scopeIds (if y.outside then s.above else s.lineage) =
      (job.scopeIds (if y.outside then s'.above else s'.lineage)).map (shift n size) := by
    split
    · exact scopeIds_twins hid habove
    · exact scopeIds_twins hid h
  simp only [Function.comp, mentionOf, mentionAt, Mention.renumber, hscopes, List.head?_map,
    contextOf_twins hid h]

end Job
end ScopeIndex
