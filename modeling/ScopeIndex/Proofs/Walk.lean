import Mathlib
import ScopeIndex.Index.Document

/-!
# The walk by cursor moves is the recursive walk

The cursor goes down to the first child, on to the next sibling or back up to the
parent.  Followed from any place it visits what is left of the row it stands in, subtree
by subtree, and then turns back to the parent; from the root that is the recursive walk.
A pass over a row of subtrees therefore splits into entering the first node, a pass over
its children, leaving the node, and a pass over the rest of the row.

## Main definitions

* `Pass.across` — a pass over a row of subtrees.

## Main results

* `Cursor.visits_eq` — the two walks agree.
* `Pass.across_cons` — a pass over a row, one subtree at a time.
* `Pass.run_eq_ok_iff` — when a walk comes to its end.
-/

namespace ScopeIndex
namespace Cursor

/-- Where the cursor goes when a row is done: back to the parent of the row, if it has
one. -/
def turnBack : List Place → List Visit
  | [] => []
  | p :: ps => ascend ⟨p, ps⟩

theorem descend_eq_of_nil (l : Label) (rest : Forest) (above : List Place) :
    descend ⟨⟨⟨l, .nil⟩, rest⟩, above⟩ =
      .enter ⟨l, .nil⟩ :: ascend ⟨⟨⟨l, .nil⟩, rest⟩, above⟩ := by
  rw [descend]
  rfl

theorem descend_eq_of_cons (l k : Label) (kids more rest : Forest) (above : List Place) :
    descend ⟨⟨⟨l, .cons k kids more⟩, rest⟩, above⟩ =
      .enter ⟨l, .cons k kids more⟩ ::
        descend ⟨⟨⟨k, kids⟩, more⟩, ⟨⟨l, .cons k kids more⟩, rest⟩ :: above⟩ := by
  rw [descend]
  rfl

theorem ascend_eq_of_nil (t : Tree) (above : List Place) :
    ascend ⟨⟨t, .nil⟩, above⟩ = .leave t :: turnBack above := by
  rw [ascend]
  cases above <;> rfl

theorem ascend_eq_of_cons (t : Tree) (k : Label) (kids more : Forest) (above : List Place) :
    ascend ⟨⟨t, .cons k kids more⟩, above⟩ = .leave t :: descend ⟨⟨⟨k, kids⟩, more⟩, above⟩ := by
  rw [ascend]
  rfl

/-- From the first node of a row the cursor walks over the row and then turns back. -/
theorem descend_eq : ∀ (f : Forest) (l : Label) (kids rest : Forest) (above : List Place),
    f = .cons l kids rest →
      descend ⟨⟨⟨l, kids⟩, rest⟩, above⟩ = f.visits ++ turnBack above := by
  intro f
  induction f with
  | nil => intro l kids rest above h; cases h
  | cons l kids rest ihk ihr =>
    intro l' kids' rest' above h
    cases h
    -- the children first, whatever the row does afterwards
    have hdown : descend ⟨⟨⟨l, kids⟩, rest⟩, above⟩ =
        .enter ⟨l, kids⟩ :: kids.visits ++ ascend ⟨⟨⟨l, kids⟩, rest⟩, above⟩ := by
      cases kids with
      | nil => exact descend_eq_of_nil l rest above
      | cons k kids more =>
        rw [descend_eq_of_cons, ihk k kids more _ rfl]
        rfl
    have hon : ascend ⟨⟨⟨l, kids⟩, rest⟩, above⟩ =
        .leave ⟨l, kids⟩ :: rest.visits ++ turnBack above := by
      cases rest with
      | nil => exact ascend_eq_of_nil ⟨l, kids⟩ above
      | cons k kids' more =>
        rw [ascend_eq_of_cons, ihr k kids' more above rfl]
        rfl
    rw [hdown, hon]
    simp [Forest.visits]

/-- The walk by cursor moves is the recursive walk. -/
theorem visits_eq (t : Tree) : visits t = t.visits := by
  have h := descend_eq t.toForest t.label t.children .nil [] rfl
  rw [turnBack, List.append_nil] at h
  exact h

end Cursor

/-! ### Passes over rows -/

namespace Pass

variable (job : Job)

/-- A pass over a row of subtrees. -/
def across (f : Forest) (p : Pass) : Except Stop Pass := f.visits.foldlM (step job) p

@[simp] theorem across_nil (p : Pass) : across job .nil p = .ok p := rfl

/-- A pass over a row enters the first node, goes over its children, leaves it and goes
over the rest. -/
theorem across_cons (l : Label) (kids rest : Forest) (p : Pass) :
    across job (.cons l kids rest) p =
      p.enter job ⟨l, kids⟩ >>= fun p => across job kids p >>= fun p =>
        p.leave job ⟨l, kids⟩ >>= across job rest := by
  simp only [across, Forest.visits, List.cons_append, List.foldlM_cons, List.foldlM_append, step]
  rfl

theorem walk_eq (t : Tree) :
    walk job t = across job t.toForest {} >>= fun p =>
      if p.stack.depth = 0 then .ok p
      else p.fail (.ofCause job.path (.scope (.leftOpen p.stack.depth))) := by
  rw [walk, Cursor.visits_eq]
  rfl

/-- A walk comes to its end if nothing stops it on the way and no scope is left open. -/
theorem run_eq_ok_iff {job : Job} {tree : Tree} {p : Pass} :
    run job tree = .ok p ↔ across job tree.numbered.toForest {} = .ok p ∧ p.stack.depth = 0 := by
  rw [run, walk_eq]
  cases across job tree.numbered.toForest {} with
  | error stop => exact ⟨fun h => (nomatch h), fun h => (nomatch h.1)⟩
  | ok q =>
    change (if q.stack.depth = 0 then Except.ok q else _) = Except.ok p ↔ _
    split
    · next hq =>
      refine ⟨fun h => ⟨h, ?_⟩, fun h => h.1⟩
      cases h
      exact hq
    · next hq =>
      refine ⟨fun h => (nomatch h), fun h => ?_⟩
      cases h.1
      exact absurd h.2 hq

end Pass

/-- A returned index is that of a walk that came to its end. -/
theorem Job.exists_run_of_indexTree {job : Job} {tree : Tree} {scopes : List IndexedScope}
    (h : (job.indexTree tree).result = .ok scopes) :
    ∃ p, Pass.run job tree = .ok p ∧ p.scopes = scopes := by
  unfold indexTree at h
  split at h
  · next p hp =>
    cases h
    exact ⟨p, hp, rfl⟩
  · cases h

end ScopeIndex
