import Mathlib
import ScopeIndex.Proofs.Accounting
import ScopeIndex.Proofs.Contexts

/-!
# What names depend on

Names are read off a tree from above: an access looks at its object and its property, a
literal at the name of its binding or at its key.  None of them looks at the number of a
node, and none looks below a node that has no part in naming.  The *outline* of a tree
leaves both out, and sites with the same outline say the same, except for the scopes
they have in view.

## Main definitions

* `Forest.outline`, `Tree.outline`, `Site.outline` — a tree reduced to what names depend
  on.
* `Job.saying?` — what a site records, apart from scopes.

## Main results

* `Name.path_resolve_outline` — paths can be read off outlines.
* `Job.literalName?_outline`, `Job.saying?_outline` — so can everything else that a site
  says.
* `Tree.forall_sites_numbered` — what depends on outlines does not depend on numbers.
-/

namespace ScopeIndex

/-- The row without numbers, and without what stands below nodes that have no part in
naming. -/
def Forest.outline : Forest → Forest
  | .nil => .nil
  | .cons l kids rest =>
      .cons { l with id := 0 } (if l.kind = .other then .nil else kids.outline) rest.outline

/-- The outline of a tree. -/
def Tree.outline (t : Tree) : Tree :=
  ⟨{ t.label with id := 0 }, if t.label.kind = .other then .nil else t.children.outline⟩

/-- The outline of a node and of its ancestors. -/
def Site.outline (s : Site) : Site := ⟨s.node.outline, s.above.map Tree.outline⟩

theorem Forest.child?_outline (field : String) (f : Forest) :
    f.outline.child? field = (f.child? field).map Tree.outline := by
  induction f with
  | nil => rfl
  | cons l kids rest _ ihr =>
    rw [outline, child?, child?]
    split
    · rfl
    · exact ihr

/-- A node that has a part in naming keeps its children. -/
theorem Tree.child?_outline {t : Tree} (h : t.label.kind ≠ .other) (field : String) :
    t.outline.child? field = (t.child? field).map Tree.outline := by
  rw [Tree.child?, Tree.outline, if_neg h]
  exact Forest.child?_outline field t.children

/-! ### Paths -/

namespace Name

variable (source : Source) (marker : String)

/-- The path of a node depends on the paths of its parts, and on the kind of its
property. -/
theorem path_ofParts_congr (l : Label) {property? property?' : Option Label}
    {object object' property property' : Option Name}
    (hkind : property?'.map Label.kind = property?.map Label.kind)
    (hobject : object'.map path = object.map path)
    (hproperty : property'.map path = property.map path) :
    (ofParts source marker { l with id := 0 } property?' object' property').path =
      (ofParts source marker l property? object property).path := by
  have hgetD : ∀ {x y : Option Name}, x.map path = y.map path →
      (x.getD (missing marker)).path = (y.getD (missing marker)).path := by
    intro x y h
    cases x <;> cases y <;> simp_all
  have hl : Label.kind { l with id := 0 } = l.kind := rfl
  unfold ofParts
  rw [hl]
  cases l.kind with
  | memberAccess =>
    cases property? with
    | none =>
      cases property?' with
      | none => simp only [dot, hgetD hobject]
      | some q' => cases hkind
    | some q =>
      cases property?' with
      | none => cases hkind
      | some q' =>
        have hq : q'.kind = q.kind := Option.some.inj hkind
        have hs : Label.isSubscript { l with id := 0 } = l.isSubscript := rfl
        simp only [hs, hq]
        split
        · simp only [dot, hgetD hobject, gap]
        · simp only [dot, hgetD hobject, hgetD hproperty]
  | _ => rfl

theorem path_ofParts_other {l : Label} (h : l.kind = .other) (property? : Option Label)
    (object property : Option Name) :
    (ofParts source marker l property? object property).path = marker := by
  simp [ofParts, h, gap]

theorem ofField_outline (f : Forest) : ∀ field : String,
    (ofField source marker field f.outline).map path =
      (ofField source marker field f).map path := by
  induction f with
  | nil => intro field; rfl
  | cons l kids rest ihk ihr =>
    intro field
    rw [Forest.outline, ofField, ofField]
    split
    · rw [Option.map_some, Option.map_some, Option.some.injEq]
      by_cases hk : l.kind = .other
      · rw [path_ofParts_other source marker (l := { l with id := 0 }) hk,
          path_ofParts_other source marker hk]
      · rw [if_neg hk]
        refine path_ofParts_congr source marker l ?_ (ihk _) (ihk _)
        rw [Forest.child?_outline, Option.map_map, Option.map_map, Option.map_map]
        rfl
    · exact ihr field

/-- The path of a node can be read off its outline. -/
theorem path_resolve_outline (t : Tree) :
    (resolve source marker t.outline).path = (resolve source marker t).path := by
  by_cases hk : t.label.kind = .other
  · rw [resolve, resolve, path_ofParts_other source marker hk]
    exact path_ofParts_other source marker (l := { t.label with id := 0 }) hk _ _ _
  · have hproperty : (t.outline.property?.map (·.label)).map Label.kind =
        (t.property?.map (·.label)).map Label.kind := by
      have hp : t.outline.property? = t.property?.map Tree.outline := Tree.child?_outline hk _
      rw [hp, Option.map_map, Option.map_map, Option.map_map]
      rfl
    have hchildren : t.outline.children = t.children.outline := by rw [Tree.outline, if_neg hk]
    rw [resolve, resolve]
    refine path_ofParts_congr source marker t.label hproperty ?_ ?_
    · rw [hchildren]
      exact ofField_outline source marker t.children _
    · rw [hchildren]
      exact ofField_outline source marker t.children _

theorem path_ofKey_outline (t : Tree) :
    (ofKey source marker t.outline).path = (ofKey source marker t).path := by
  have hk : t.outline.label.kind = t.label.kind := rfl
  rw [ofKey, ofKey, hk]
  cases t.label.kind with
  | identifier => exact path_resolve_outline source marker t
  | literal => exact path_resolve_outline source marker t
  | _ => rfl

theorem path_ofKey?_outline (t : Option Tree) :
    (ofKey? source marker (t.map Tree.outline)).path = (ofKey? source marker t).path := by
  cases t with
  | none => rfl
  | some t => exact path_ofKey_outline source marker t

end Name

/-! ### Sites -/

namespace Site

@[simp] theorem kind_outline (s : Site) : s.outline.kind = s.kind := rfl

@[simp] theorem parent?_outline (s : Site) : s.outline.parent? = s.parent?.map Site.outline := by
  obtain ⟨node, above⟩ := s
  cases above <;> rfl

@[simp] theorem isIn_outline (s : Site) (kind : Kind) : s.outline.isIn kind = s.isIn kind := by
  cases hp : s.parent? <;> simp [isIn, hp]

@[simp] theorem isPart_outline (s : Site) (field : String) (kind : Kind) :
    s.outline.isPart field kind = s.isPart field kind := by
  simp only [isPart, isIn_outline]
  rfl

@[simp] theorem isInitial_outline (s : Site) : s.outline.isInitial = s.isInitial :=
  isPart_outline s _ _

@[simp] theorem isMethodName_outline (s : Site) : s.outline.isMethodName = s.isMethodName := by
  cases hp : s.parent? <;> simp [isMethodName, hp]

@[simp] theorem isLiteralMethod_outline (s : Site) :
    s.outline.isLiteralMethod = s.isLiteralMethod := by
  simp [isLiteralMethod]

@[simp] theorem declares_outline (s : Site) : s.outline.declares = s.declares := by
  unfold declares
  simp only [isPart_outline, parent?_outline]
  cases s.parent? with
  | none => rfl
  | some p =>
    simp only [Option.map_some, Option.any_some, isIn_outline, parent?_outline]
    cases p.parent? <;> simp

/-- The children of a parent that has a part in naming. -/
theorem parentChild?_outline {s : Site} {field part : String} {kind : Kind} (hk : kind ≠ .other)
    (h : s.isPart part kind = true) :
    (s.outline.parent?.bind fun q => q.node.child? field) =
      (s.parent?.bind fun q => q.node.child? field).map Tree.outline := by
  obtain ⟨q, hq, hqk⟩ := exists_parent_of_isPart h
  rw [parent?_outline, hq]
  exact Tree.child?_outline (by rw [← Site.kind, hqk]; exact hk) field

@[simp] theorem addsName_outline (s : Site) : s.outline.addsName = s.addsName := by
  unfold addsName
  rw [kind_outline, isInitial_outline, isPart_outline]
  cases hi : s.isInitial with
  | false => rfl
  | true =>
    rw [parentChild?_outline (by decide) hi]
    cases s.parent?.bind fun q => q.node.child? "name" <;> rfl

@[simp] theorem constantProperty?_outline (s : Site) :
    s.outline.constantProperty? = s.constantProperty? := by
  unfold constantProperty?
  rw [kind_outline]
  split
  · next hk =>
    have hp : s.outline.node.property? = s.node.property?.map Tree.outline :=
      Tree.child?_outline (by rw [← Site.kind, hk]; decide) _
    rw [hp, Option.filter_map, Option.map_map]
    rfl
  · rfl

end Site

theorem Job.literalName?_outline (job : Job) (s : Site) :
    job.literalName? s.outline = job.literalName? s := by
  unfold literalName?
  rw [Site.kind_outline, Site.isInitial_outline, Site.isPart_outline]
  split
  · split
    · next hi =>
      simp only [Site.parentChild?_outline (by decide) hi, Option.filter_map, Option.map_map]
      rfl
    · split
      · next hp =>
        rw [Site.parentChild?_outline (by decide) hp]
        exact congrArg some (Name.path_ofKey?_outline ..)
      · rfl
  · rfl

/-! ### What a site records -/

/-- What a site records, apart from the scopes that may take it. -/
structure Saying where
  /-- The name, which is joined to the context of the site. -/
  name : String
  /-- Its bytes. -/
  span : Span
  /-- Must it go to the innermost of the scopes? -/
  declaring : Bool
  /-- Is the scope of the node itself out of view? -/
  outside : Bool
  deriving DecidableEq, Repr

namespace Job

variable (job : Job)

/-- What a site records, without a look at scopes. -/
def saying? (s : Site) : Option Saying :=
  match s.kind with
  | .memberAccess =>
      (s.node.property?.filter fun q => q.label.kind = .literal).map fun q =>
        ⟨(job.accessName s.node).path, q.label.span, false, false⟩
  | .method =>
      if s.isIn .objectLiteral then
        (s.node.child? "name").map fun n =>
          ⟨(Name.ofKey job.source job.marker n).path, n.label.span,
            s.parent?.any fun o => o.isInitial, true⟩
      else none
  | .identifier =>
      if s.isPart "property" .memberAccess then
        s.parent?.map fun m => ⟨(job.accessName m.node).path, s.node.label.span, false, false⟩
      else if s.isMethodName then none
      else some ⟨job.source.textOf s.node.label, s.node.label.span, s.declares, false⟩
  | _ => none

/-- The mention of a saying at a site. -/
def mentionOf (s : Site) (y : Saying) : Mention :=
  job.mentionAt s (job.scopeIds (if y.outside then s.above else s.lineage)) y.name y.span
    y.declaring

theorem mention?_eq_map_saying? (s : Site) :
    job.mention? s = (job.saying? s).map (job.mentionOf s) := by
  unfold mention? saying?
  cases s.kind with
  | memberAccess => simp [mentionOf, Function.comp_def]
  | method => cases s.isIn .objectLiteral <;> simp [mentionOf, Function.comp_def]
  | identifier =>
    cases s.isPart "property" .memberAccess with
    | true => simp [mentionOf, Function.comp_def]
    | false => cases s.isMethodName <;> simp [mentionOf]
  | _ => rfl

/-- What a site records can be read off its outline. -/
theorem saying?_outline (s : Site) : job.saying? s.outline = job.saying? s := by
  have hkids : s.kind ≠ .other → ∀ field,
      s.outline.node.child? field = (s.node.child? field).map Tree.outline :=
    fun h field => Tree.child?_outline h field
  unfold saying?
  rw [Site.kind_outline]
  cases hk : s.kind with
  | memberAccess =>
    have hp : s.outline.node.property? = s.node.property?.map Tree.outline :=
      hkids (by rw [hk]; decide) _
    have hname : (job.accessName s.outline.node).path = (job.accessName s.node).path :=
      Name.path_resolve_outline ..
    simp only [hp, hname, Option.filter_map, Option.map_map]
    rfl
  | method =>
    simp only [Site.isIn_outline, hkids (by rw [hk]; decide), Site.parent?_outline,
      Option.map_map, Option.any_map, Function.comp_def, Name.path_ofKey_outline,
      Site.isInitial_outline]
    rfl
  | identifier =>
    have hname : ∀ m : Site,
        (job.accessName m.outline.node).path = (job.accessName m.node).path :=
      fun m => Name.path_resolve_outline ..
    simp only [Site.isPart_outline, Site.isMethodName_outline, Site.declares_outline,
      Site.parent?_outline, Option.map_map, Function.comp_def, hname]
    rfl
  | _ => rfl

end Job

/-! ### Numbers -/

theorem Forest.outline_bare (f : Forest) : f.bare.outline = f.outline := by
  induction f with
  | nil => rfl
  | cons l kids rest ihk ihr => rw [bare, outline, outline, ihk, ihr]; rfl

theorem Tree.outline_bare (t : Tree) : t.bare.outline = t.outline := by
  rw [Tree.bare, Tree.outline, Tree.outline, Forest.outline_bare]
  rfl

theorem Site.outline_bare (s : Site) : s.bare.outline = s.outline := by
  simp only [Site.bare, Site.outline, Tree.outline_bare, List.map_map, Function.comp_def]

/-- Numbering a tree does not change the outlines of its sites. -/
theorem Tree.outline_sites_numbered (t : Tree) :
    t.numbered.sites.map Site.outline = t.sites.map Site.outline := by
  have hbare : ∀ ss : List Site, ss.map Site.outline = (ss.map Site.bare).map Site.outline := by
    intro ss
    rw [List.map_map]
    exact List.map_congr_left fun s _ => (Site.outline_bare s).symm
  rw [hbare, sites_numbered, ← hbare]

/-- What can be read off outlines holds of the sites of a tree just when it holds of the
numbered ones. -/
theorem Tree.forall_sites_numbered {P : Site → Prop} (hP : ∀ s, P s.outline ↔ P s) (t : Tree) :
    (∀ s ∈ t.numbered.sites, P s) ↔ ∀ s ∈ t.sites, P s := by
  have hmap : ∀ ss : List Site, (∀ s ∈ ss, P s) ↔ ∀ o ∈ ss.map Site.outline, P o := by
    intro ss
    simp [hP]
  rw [hmap, outline_sites_numbered, ← hmap]

end ScopeIndex
