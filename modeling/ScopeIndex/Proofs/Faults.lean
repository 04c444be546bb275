import Mathlib
import ScopeIndex.Index.Document

/-!
# Where a syntax error is reported

The search for the first faulty node keeps a worklist of subtrees.  A round takes the subtree in
front off the list; its children take its place if it has an error, and it is passed over
otherwise.  A subtree that is passed over holds no faulty node, so the search finds what a search
through all nodes in pre-order finds.  Every round takes a node away, so there are at most as many
rounds as there are nodes.

A node may be flagged without a faulty node at or below it.  Then the search looks at the nodes
below in vain and goes on behind them, and if nothing else is found the root is reported.

## Main definitions

* `Forest.searchStep`, `Forest.searched` — one round of the search, and some rounds.

## Main results

* `Forest.hasError_iff` — which rows of subtrees have an error.
* `Forest.firstFault?_eq_find?` — **the search finds the first faulty node in pre-order.**
* `Forest.root?_searched` — it is over after as many rounds as there are nodes.
* `Document.parse_reports_first_fault` — **what parsing reports.**
-/

namespace ScopeIndex
namespace Forest

/-- The root of the first subtree. -/
def root? : Forest → Option Label
  | nil => none
  | cons l _ _ => some l

/-- One round of the search for a faulty node.  The search is over when nothing is left, or when a
faulty node is in front. -/
def searchStep : Forest → Option Forest
  | nil => none
  | cons l kids rest =>
      if l.isFault then none
      else some (if l.flagged || kids.hasError then kids.append rest else rest)

/-- The worklist after some rounds; when the search is over it stays as it is. -/
def searched : Nat → Forest → Forest
  | 0, f => f
  | n + 1, f =>
      match searchStep f with
      | none => f
      | some g => searched n g

variable {f g : Forest}

/-- A row has an error if one of its nodes is faulty or flagged. -/
theorem hasError_iff :
    f.hasError = true ↔ ∃ l ∈ f.preorder, l.isFault = true ∨ l.flagged = true := by
  induction f with
  | nil => simp [hasError, preorder]
  | cons l kids rest ihk ihr =>
    simp only [hasError, Bool.or_eq_true, ihk, ihr, preorder, List.cons_append, List.mem_cons,
      List.mem_append]
    constructor
    · rintro ((h | ⟨m, hm, h⟩) | ⟨m, hm, h⟩)
      · exact ⟨l, .inl rfl, h⟩
      · exact ⟨m, .inr (.inl hm), h⟩
      · exact ⟨m, .inr (.inr hm), h⟩
    · rintro ⟨m, rfl | hm | hm, h⟩
      · exact .inl (.inl h)
      · exact .inl (.inr ⟨m, hm, h⟩)
      · exact .inr ⟨m, hm, h⟩

/-- A row without an error holds no faulty node. -/
theorem find?_preorder_of_hasError (h : f.hasError = false) :
    f.preorder.find? Label.isFault = none := by
  rw [List.find?_eq_none]
  intro l hl hfault
  have herror : f.hasError = true := hasError_iff.mpr ⟨l, hl, .inl hfault⟩
  exact absurd (herror.symm.trans h) (by decide)

/-! ### One round -/

/-- Every round takes a node away. -/
theorem size_of_searchStep (h : f.searchStep = some g) : g.size < f.size := by
  cases f with
  | nil => cases h
  | cons l kids rest =>
    rw [searchStep] at h
    split at h
    · cases h
    · cases h
      split
      · rw [size_append, size]
        omega
      · rw [size]
        omega

/-- A round loses no faulty node. -/
theorem find?_of_searchStep (h : f.searchStep = some g) :
    f.preorder.find? Label.isFault = g.preorder.find? Label.isFault := by
  cases f with
  | nil => cases h
  | cons l kids rest =>
    rw [searchStep] at h
    split at h
    · cases h
    · next hl =>
      rw [preorder, List.cons_append, List.find?_cons_of_neg hl]
      cases h
      split
      · rw [preorder_append]
      · next herror =>
        have hkids : kids.hasError = false := by
          rw [Bool.or_eq_true, not_or] at herror
          simpa using herror.2
        rw [List.find?_append, find?_preorder_of_hasError hkids, Option.none_or]

/-- When the search is over, what is in front is the first faulty node. -/
theorem find?_of_over (h : f.searchStep = none) :
    f.preorder.find? Label.isFault = f.root? := by
  cases f with
  | nil => rfl
  | cons l kids rest =>
    rw [searchStep] at h
    split at h
    · next hl => rw [preorder, List.cons_append, List.find?_cons_of_pos hl, root?]
    · cases h

theorem firstFault?_of_searchStep (h : f.searchStep = some g) : f.firstFault? = g.firstFault? := by
  cases f with
  | nil => cases h
  | cons l kids rest =>
    rw [searchStep] at h
    split at h
    · cases h
    · next hl =>
      cases h
      rw [firstFault?, if_neg hl]
      split <;> rfl

theorem firstFault?_of_over (h : f.searchStep = none) : f.firstFault? = f.root? := by
  cases f with
  | nil => rw [firstFault?, root?]
  | cons l kids rest =>
    rw [searchStep] at h
    split at h
    · next hl => rw [firstFault?, if_pos hl, root?]
    · cases h

/-! ### The whole search -/

/-- What every round keeps and what holds at the end, from the start on. -/
theorem searched_induction {P : Forest → Forest → Prop} (hover : ∀ f, f.searchStep = none → P f f)
    (hround : ∀ f g last, f.searchStep = some g → P g last → P f last) :
    ∀ (n : Nat) (f : Forest), f.size ≤ n → P f (f.searched n) := by
  intro n
  induction n with
  | zero =>
    intro f hsize
    cases hstep : f.searchStep with
    | none => exact hover f hstep
    | some g => exact absurd (size_of_searchStep hstep) (by omega)
  | succ n ih =>
    intro f hsize
    rw [searched]
    cases hstep : f.searchStep with
    | none => exact hover f hstep
    | some g =>
      have hlt := size_of_searchStep hstep
      exact hround f g _ hstep (ih g (by omega))

/-- **The search ends** after at most as many rounds as there are nodes. -/
theorem searchStep_searched (f : Forest) : (f.searched f.size).searchStep = none :=
  searched_induction (P := fun _ last => last.searchStep = none) (fun _ h => h)
    (fun _ _ _ _ h => h) f.size f le_rfl

theorem root?_searched (f : Forest) : (f.searched f.size).root? = f.firstFault? :=
  searched_induction (P := fun f last => last.root? = f.firstFault?)
    (fun _ h => (firstFault?_of_over h).symm)
    (fun _ _ _ hstep h => h.trans (firstFault?_of_searchStep hstep).symm) f.size f le_rfl

/-- **The search finds the first faulty node in pre-order.** -/
theorem firstFault?_eq_find? (f : Forest) : f.firstFault? = f.preorder.find? Label.isFault := by
  rw [← root?_searched]
  exact searched_induction (P := fun f last => last.root? = f.preorder.find? Label.isFault)
    (fun _ h => (find?_of_over h).symm)
    (fun _ _ _ hstep h => h.trans (find?_of_searchStep hstep).symm) f.size f le_rfl

end Forest

/-! ### What parsing reports -/

namespace Document

/-- **What parsing reports.**  A tree has an error if some node of it is flagged, missing or marked
as an error.  Such a tree is refused unless errors are tolerated, and then there is one warning;
any other tree is taken without one.  What is reported is the line of the first node in pre-order
that is missing or marked, or of the root if there is none; this is the node at which the search
stands after as many rounds as the tree has nodes, and then it is over. -/
theorem parse_reports_first_fault (source : Source) (tree : Tree) (path : String)
    (tolerant : Bool) :
    let parsed := (⟨source, some tree⟩ : Document).parse path tolerant
    let first? := tree.toForest.preorder.find? fun l => l.type = "ERROR" || l.missing
    let line := source.rowOf (first?.getD tree.label) + 1
    let last := tree.toForest.searched tree.toForest.size
    (tree.hasError = true ↔ ∃ l ∈ tree.toForest.preorder,
        l.flagged = true ∨ l.missing = true ∨ l.type = "ERROR") ∧
      (parsed.result = .error (.ofCause path (.unparsable line)) ↔
        tree.hasError = true ∧ tolerant = false) ∧
      (parsed.result = .ok tree ↔ ¬ (tree.hasError = true ∧ tolerant = false)) ∧
      (parsed.journal = [.faultySource line] ↔ tree.hasError = true ∧ tolerant = true) ∧
      (parsed.journal = [] ↔ ¬ (tree.hasError = true ∧ tolerant = true)) ∧
      last.searchStep = none ∧ last.root? = first? := by
  intro parsed first? line last
  have hfirst : tree.toForest.firstFault? = first? := Forest.firstFault?_eq_find? _
  have hline : source.lineOf tree.faultLabel = line := by
    rw [Source.lineOf, Tree.faultLabel, hfirst]
  have herror : tree.hasError = true ↔ ∃ l ∈ tree.toForest.preorder,
      l.flagged = true ∨ l.missing = true ∨ l.type = "ERROR" := by
    have hrow : tree.hasError = tree.toForest.hasError := by
      simp [Tree.hasError, Tree.toForest, Forest.hasError]
    rw [hrow, Forest.hasError_iff]
    refine exists_congr fun l => and_congr_right fun _ => ?_
    rw [Label.isFault, Bool.or_eq_true, decide_eq_true_eq]
    tauto
  have hparsed : parsed = if tree.hasError then
      if tolerant then { result := .ok tree, journal := [.faultySource line] }
      else .failed (.ofCause path (.unparsable line))
      else { result := .ok tree } := by
    rw [← hline]
    rfl
  refine ⟨herror, ?_, ?_, ?_, ?_, Forest.searchStep_searched _,
    (Forest.root?_searched _).trans hfirst⟩
  all_goals
    rw [hparsed]
    cases tree.hasError <;> cases tolerant <;> simp [Outcome.failed]

end Document
end ScopeIndex
