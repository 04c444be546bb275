import Mathlib
import ScopeIndex.Proofs.Refinement

/-!
# Scopes are closed by the nodes that open them

A boundary may let some nodes open scopes and others close them.  A walk that comes to
its end has not noticed a difference: a node that closes a scope without having opened
it stops the walk, and a scope that its node does not close stays open for good, since
no other node may close it.  So the index is the one of the boundary at which every
scope is closed by the node that opened it.

## Main definitions

* `Job.strict` — the job whose nodes close the scopes they open.

## Main results

* `Pass.across_owners` — what a walk leaves open.
* `Job.closes_eq_opens_of_run` — in a finished walk nodes close what they open.
* `Document.indexTree_disciplined` — the index for any boundary.
-/

namespace ScopeIndex

/-- The scope that a node opens, by the number of the node, if it opens one. -/
def Job.openedBy (job : Job) (l : Label) : List Int :=
  if l.named && job.opens l then [(l.id : Int)] else []

theorem Job.openedBy_eq_nil {job : Job} {l : Label} (h : job.openedBy l = [])
    (hn : l.named = true) :
    job.opens l = false := by
  unfold openedBy at h
  split at h
  · cases h
  · next hc => simpa [hn] using hc

namespace Pass

variable {job : Job} {p p' : Pass}

/-! ### One visit -/

theorem enter_owners {node : Tree} (h : p.enter job node = .ok p') :
    p'.stack.owners = job.openedBy node.label ++ p.stack.owners := by
  rcases enter_cases h with ⟨hn, rfl⟩ | ⟨hn, ho, he⟩ | ⟨hn, ho, he⟩
  · simp [Job.openedBy, hn]
  · rw [he.owners_eq, ScopeStack.owners_push]
    simp [Job.openedBy, hn, ho, Scope.ofLabel]
  · rw [he.owners_eq]
    simp [Job.openedBy, ho]

theorem leave_owners {node : Tree} (h : p.leave job node = .ok p') :
    (job.closes node.label = true ∧ p.stack.owners = (node.label.id : Int) :: p'.stack.owners) ∨
      ((node.label.named = true → job.closes node.label = false) ∧
        p'.stack.owners = p.stack.owners) := by
  rcases leave_cases h with ⟨hn, rfl⟩ | ⟨-, hc, he⟩ | ⟨-, hc, s, he, hhead, hs⟩
  · exact .inr ⟨fun hn' => (nomatch hn.symm.trans hn'), rfl⟩
  · exact .inr ⟨fun _ => hc, he.owners_eq⟩
  · refine .inl ⟨hc, ?_⟩
    rw [he.owners_eq] at hhead
    rw [hs, ScopeStack.owners_dropInnermost, he.owners_eq]
    exact (List.cons_head?_tail hhead).symm

/-- Behind the children of a node, where scopes of theirs may still be open, leaving the
node closes its own scope and no other. -/
theorem leave_owners_of_kids (node : Tree) {before left : List Int}
    (hbefore : ∀ o ∈ before, o < node.label.id) (hleft : ∀ o ∈ left, (node.label.id : Int) < o)
    (hp : p.stack.owners = left ++ (job.openedBy node.label ++ before))
    (h : p.leave job node = .ok p') :
    (p'.stack.owners = before ∧ left = [] ∧ job.closes node.label = job.opens node.label) ∨
      (p'.stack.owners = p.stack.owners ∧
        (node.label.named = true → job.closes node.label = false)) := by
  rcases leave_owners h with ⟨hc, hcons⟩ | ⟨hc, heq⟩
  · refine .inl ?_
    rw [hp] at hcons
    cases left with
    | cons o os =>
      have := hleft o List.mem_cons_self
      have := (List.cons.inj hcons).1
      omega
    | nil =>
      -- the innermost scope is that of the node, since all from before belong to nodes before it
      rw [List.nil_append] at hcons
      unfold Job.openedBy at hcons
      split at hcons
      · next ho =>
        rw [Bool.and_eq_true] at ho
        exact ⟨(List.cons.inj hcons).2.symm, rfl, hc.trans ho.2.symm⟩
      · rw [List.nil_append] at hcons
        have := hbefore node.label.id (hcons ▸ List.mem_cons_self)
        omega
  · exact .inr ⟨heq, hc⟩

/-! ### What a row leaves open -/

/-- A row leaves scopes of its own nodes open, in front of those from before.  If it
leaves none, its nodes close the scopes they open. -/
theorem across_owners (f : Forest) : ∀ (n : Nat) (p p' : Pass), f.NumberedFrom n →
    (∀ o ∈ p.stack.owners, o < n) → across job f p = .ok p' →
    ∃ left : List Int, p'.stack.owners = left ++ p.stack.owners ∧
      (∀ o ∈ left, (n : Int) ≤ o ∧ o < n + f.size) ∧
      (left = [] → ∀ l ∈ f.preorder, l.named = true → job.closes l = job.opens l) := by
  induction f with
  | nil =>
    intro n p p' _ _ h
    cases h
    exact ⟨[], rfl, by simp, by simp [Forest.preorder]⟩
  | cons l kids rest ihk ihr =>
    intro n p p' hnum hlt h
    obtain ⟨rfl, hnumk, hnumr⟩ := hnum
    rw [across_cons] at h
    obtain ⟨p₁, h₁, h⟩ := exists_of_bind_eq_ok h
    obtain ⟨p₂, h₂, h⟩ := exists_of_bind_eq_ok h
    obtain ⟨p₃, h₃, h⟩ := exists_of_bind_eq_ok h
    have hown : ∀ o ∈ job.openedBy l, o = l.id := by
      intro o ho
      unfold Job.openedBy at ho
      split at ho
      · exact List.mem_singleton.mp ho
      · cases ho
    have ho₁ := enter_owners h₁
    have hlt₁ : ∀ o ∈ p₁.stack.owners, o < ((l.id + 1 : Nat) : Int) := by
      intro o ho
      rw [ho₁] at ho
      rcases List.mem_append.mp ho with ho | ho
      · have := hown o ho
        omega
      · have := hlt o ho
        omega
    obtain ⟨leftk, ho₂, hleftk, hkids⟩ := ihk _ p₁ p₂ hnumk hlt₁ h₂
    rw [ho₁] at ho₂
    have ho₃ := leave_owners_of_kids ⟨l, kids⟩ hlt
      (fun o ho => Int.lt_iff_add_one_le.mpr (hleftk o ho).1) ho₂ h₃
    -- what is open behind the first subtree, and what it means if that is nothing new
    obtain ⟨left₁, hp₃, hleft₁, hfirst⟩ : ∃ left₁ : List Int,
        p₃.stack.owners = left₁ ++ p.stack.owners ∧
        (∀ o ∈ left₁, (l.id : Int) ≤ o ∧ o < l.id + 1 + kids.size) ∧
        (left₁ = [] → leftk = [] ∧ (l.named = true → job.closes l = job.opens l)) := by
      rcases ho₃ with ⟨ho₃, hk, hc⟩ | ⟨ho₃, hc⟩
      · exact ⟨[], ho₃, by simp, fun _ => ⟨hk, fun _ => hc⟩⟩
      · refine ⟨leftk ++ job.openedBy l, by rw [ho₃, ho₂, List.append_assoc], ?_, ?_⟩
        · intro o ho
          rcases List.mem_append.mp ho with ho | ho
          · have := hleftk o ho
            omega
          · have := hown o ho
            omega
        · intro hnil
          obtain ⟨hk, hl⟩ := List.append_eq_nil_iff.mp hnil
          exact ⟨hk, fun hn => (hc hn).trans (Job.openedBy_eq_nil hl hn).symm⟩
    have hlt₃ : ∀ o ∈ p₃.stack.owners, o < ((l.id + 1 + kids.size : Nat) : Int) := by
      intro o ho
      rw [hp₃] at ho
      rcases List.mem_append.mp ho with ho | ho
      · have := hleft₁ o ho
        omega
      · have := hlt o ho
        omega
    obtain ⟨leftr, ho', hleftr, hrest⟩ := ihr _ p₃ p' hnumr hlt₃ h
    refine ⟨leftr ++ left₁, by rw [ho', hp₃, List.append_assoc], ?_, ?_⟩
    · intro o ho
      simp only [Forest.size]
      rcases List.mem_append.mp ho with ho | ho
      · have := hleftr o ho
        omega
      · have := hleft₁ o ho
        omega
    · intro hnil
      obtain ⟨hr, h₁⟩ := List.append_eq_nil_iff.mp hnil
      obtain ⟨hk, hl⟩ := hfirst h₁
      intro l' hl'
      simp only [Forest.preorder, List.cons_append, List.mem_cons, List.mem_append] at hl'
      rcases hl' with rfl | hl' | hl'
      · exact hl
      · exact hkids hk l' hl'
      · exact hrest hr l' hl'

end Pass

/-! ### The job that closes what it opens -/

namespace Job

variable {job : Job} {p : Pass}

/-- The job whose nodes close the scopes they open. -/
def strict (job : Job) : Job := { job with closes := job.opens }

/-- In a finished walk nodes close the scopes they open, and no others. -/
theorem closes_eq_opens_of_run {tree : Tree} (h : Pass.run job tree = .ok p) :
    ∀ l ∈ tree.numbered.toForest.preorder, l.named = true → job.closes l = job.opens l := by
  obtain ⟨hwalk, hdepth⟩ := Pass.run_eq_ok_iff.mp h
  obtain ⟨left, hleft, -, hclose⟩ :=
    Pass.across_owners _ 1 {} p tree.numberedFrom_numbered
      (by simp [ScopeStack.owners, ScopeStack.empty]) hwalk
  refine hclose (List.eq_nil_of_length_eq_zero ?_)
  rw [← p.stack.length_owners, hleft, List.length_append] at hdepth
  omega

theorem leave_strict {node : Tree}
    (h : node.label.named = true → job.closes node.label = job.opens node.label) :
    p.leave job.strict node = p.leave job node := by
  cases hn : node.label.named with
  | false => simp [Pass.leave, hn]
  | true =>
    have hc : job.strict.closes node.label = job.closes node.label := (h hn).symm
    simp only [Pass.leave, hc]
    rfl

theorem across_strict (f : Forest) :
    ∀ p : Pass, (∀ l ∈ f.preorder, l.named = true → job.closes l = job.opens l) →
      Pass.across job.strict f p = Pass.across job f p := by
  induction f with
  | nil => intro p _; rfl
  | cons l kids rest ihk ihr =>
    intro p hclose
    have hk : ∀ q, Pass.across job.strict kids q = Pass.across job kids q := fun q =>
      ihk q fun l' hl' => hclose l' (by simp [Forest.preorder, hl'])
    have hr : ∀ q, Pass.across job.strict rest q = Pass.across job rest q := fun q =>
      ihr q fun l' hl' => hclose l' (by simp [Forest.preorder, hl'])
    have hl : ∀ q : Pass, q.leave job.strict ⟨l, kids⟩ = q.leave job ⟨l, kids⟩ := fun q =>
      leave_strict (hclose l (by simp [Forest.preorder]))
    rw [Pass.across_cons, Pass.across_cons, funext hr]
    simp only [hk, hl]
    rfl

/-- A walk that comes to its end is the one of the strict job. -/
theorem run_strict {tree : Tree} (h : Pass.run job tree = .ok p) :
    Pass.run job.strict tree = .ok p := by
  rw [Pass.run_eq_ok_iff, across_strict _ _ (closes_eq_opens_of_run h)]
  exact Pass.run_eq_ok_iff.mp h

/-! ### Any decision on scopes -/

variable {tree : Tree} {scopes : List IndexedScope}

/-- An index that is returned is the one of the strict job, down to the events. -/
theorem indexTree_strict (h : (job.indexTree tree).result = .ok scopes) :
    job.strict.indexTree tree = job.indexTree tree := by
  obtain ⟨p, hp, -⟩ := exists_run_of_indexTree h
  simp only [indexTree, hp, run_strict hp]

/-- An index that is returned is the one that the sites say, each of which has found the
scopes it needs. -/
theorem indexTree_settled (h : (job.indexTree tree).result = .ok scopes) :
    (∀ s ∈ tree.numbered.sites, job.Grounded s) ∧ scopes = job.reading tree := by
  obtain ⟨p, hp, rfl⟩ := exists_run_of_indexTree h
  have hsettles := run_settles tree (closes_eq_opens_of_run hp)
  rwa [hp] at hsettles

end Job

/-! ### Boundaries -/

theorem Boundary.opens_of_named (b : Boundary) {l : Label} (hn : l.named = true) :
    b.opens l = b.opening.contains l.type := by
  simp [Boundary.opens, hn]

theorem Boundary.closes_of_named (b : Boundary) {l : Label} (hn : l.named = true) :
    b.closes l = b.closing.contains l.type := by
  simp [Boundary.closes, hn]

namespace Document

variable {source : Source} {tree : Tree} {path : String} {rules : IndexRules}
  {scopes : List IndexedScope}

/-- In a returned index the types that open scopes are those that close them, as far as
they stand in the tree. -/
theorem opening_iff_closing (h : (indexTree source tree path rules).result = .ok scopes) {l : Label}
    (hl : l ∈ tree.toForest.preorder) (hn : l.named = true) :
    l.type ∈ rules.boundary.opening ↔ l.type ∈ rules.boundary.closing := by
  obtain ⟨p, hp, -⟩ := Job.exists_run_of_indexTree h
  obtain ⟨n, hmem⟩ := Tree.exists_numbered hl
  have hclose := Job.closes_eq_opens_of_run hp _ hmem hn
  -- a boundary does not look at numbers
  change rules.boundary.closes l = rules.boundary.opens l at hclose
  rw [Boundary.closes_of_named _ hn, Boundary.opens_of_named _ hn] at hclose
  rw [← List.contains_iff_mem, ← List.contains_iff_mem, ← hclose]

/-- The scopes that are returned: the named nodes of the types that open scopes, each as
deep as there are such nodes above it. -/
theorem heads_eq (h : (indexTree source tree path rules).result = .ok scopes) :
    scopes.map (fun s => (s.type, s.span, s.depth)) =
      (tree.sites.filter fun s => rules.boundary.opening.contains s.node.label.type).map fun s =>
        (s.node.label.type, s.node.label.span,
          (s.above.countP (fun t => rules.boundary.opening.contains t.label.type) : Int)) := by
  rw [(Job.indexTree_settled h).2, ← Tree.map_filter_sites_numbered]
  · have hnamed : ∀ s ∈ tree.numbered.sites, ∀ t ∈ s.lineage,
        rules.boundary.opens t.label = rules.boundary.opening.contains t.label.type := by
      intro s hs t ht
      exact Boundary.opens_of_named _ (Forest.named_of_mem_sites _ hs (by simp) t ht)
    have hopen : (Job.ofRules source path rules).scopeSites tree.numbered.sites =
        tree.numbered.sites.filter fun s => rules.boundary.opening.contains s.node.label.type :=
      List.filter_congr fun s hs => hnamed s hs s.node List.mem_cons_self
    rw [Job.reading, hopen, List.map_map]
    refine List.map_congr_left fun s hs => ?_
    have habove : s.above.countP (fun t => rules.boundary.opens t.label) =
        s.above.countP fun t => rules.boundary.opening.contains t.label.type :=
      List.countP_congr fun t ht => by
        rw [hnamed s (List.mem_of_mem_filter hs) t (List.mem_cons_of_mem _ ht)]
    simp only [Function.comp, Job.scopeIds, Job.ofRules, List.length_map,
      ← List.countP_eq_length_filter, habove]
  · intro s
    rfl
  · intro s
    simp only [Site.bare, List.countP_map]
    rfl

/-- **The index for any boundary.**  If an index is returned, the named nodes of the
tree close scopes just when they open them; the scopes are the named nodes of the types
that open scopes, in pre-order, each with its type, its bytes and the number of such
nodes above it; and closing scopes by the types that open them gives the same index. -/
theorem indexTree_disciplined (source : Source) (tree : Tree) (path marker : String)
    (tolerant : Bool) (boundary : Boundary) (scopes : List IndexedScope)
    (h : (indexTree source tree path ⟨tolerant, marker, boundary⟩).result = .ok scopes) :
    (∀ l ∈ tree.toForest.preorder, l.named = true →
        (l.type ∈ boundary.opening ↔ l.type ∈ boundary.closing)) ∧
      scopes.map (fun s => (s.type, s.span, s.depth)) =
        (tree.sites.filter fun s => boundary.opening.contains s.node.label.type).map (fun s =>
          (s.node.label.type, s.node.label.span,
            ((s.above.countP fun t => boundary.opening.contains t.label.type : Nat) : Int))) ∧
      indexTree source tree path ⟨tolerant, marker, boundary⟩ =
        indexTree source tree path ⟨tolerant, marker, .ofTypes boundary.opening⟩ :=
  ⟨fun _ hl hn => opening_iff_closing h hl hn, heads_eq h, (Job.indexTree_strict h).symm⟩

theorem indexTree_disciplined_sample :
    (indexTree Sample.source Sample.tree "o.js"
        ⟨false, "?", ⟨Sample.types, "while" :: Sample.types, none⟩⟩).result = .ok Sample.scopes ∧
      Sample.scopes.map (fun s => (s.type, s.span, s.depth)) =
        (Sample.tree.sites.filter fun s => Sample.types.contains s.node.label.type).map (fun s =>
          (s.node.label.type, s.node.label.span,
            ((s.above.countP fun t => Sample.types.contains t.label.type : Nat) : Int))) := by
  have h : (indexTree Sample.source Sample.tree "o.js"
      ⟨false, "?", ⟨Sample.types, "while" :: Sample.types, none⟩⟩).result = .ok Sample.scopes := by
    rw [indexTree, Job.indexTree, Pass.run, Pass.walk_eq]
    decide +kernel
  exact ⟨h, (indexTree_disciplined _ _ _ _ _ _ _ h).2.1⟩

end Document
end ScopeIndex
