import Mathlib
import ScopeIndex.Proofs.Reading

/-!
# Frames of a lineage

The frames that a walk keeps are one for each node of the lineage of the node being
visited, and every question about them is a question about the lineage.

## Main definitions

* `Site.frame`, `Job.frameOf` — the frame of a site, when it is reached and once it has
  been entered.
* `Job.frames` — the frames of a lineage.

## Main results

* `Job.isPart_frames`, `Job.isDeclaring_frames`, `Job.contextName?_frames` — frames
  answer like the lineage.
-/

namespace ScopeIndex

/-! ### Small ancestries -/

namespace Ancestry

@[simp] theorem up_one_cons (f : Frame) (fs : List Frame) : up 1 ⟨f :: fs⟩ = ⟨fs⟩ := rfl

@[simp] theorem up_two_cons_cons (f g : Frame) (fs : List Frame) : up 2 ⟨f :: g :: fs⟩ = ⟨fs⟩ := rfl

end Ancestry

/-- The frame of a site that has just been reached. -/
def Site.frame (s : Site) : Frame where
  kind := s.kind
  field := s.node.label.field
  children := s.node.children

namespace Job

variable (job : Job)

/-- The frame of a site that has been entered. -/
def frameOf (s : Site) : Frame :=
  { s.frame with
    name := if s.kind = .memberAccess then some (job.accessName s.node).path else none
    pushed := (job.literalName? s).isSome }

/-- The frames of a lineage. -/
def frames : List Tree → List Frame
  | [] => []
  | t :: ts => job.frameOf ⟨t, ts⟩ :: frames ts

@[simp] theorem frames_cons (t : Tree) (ts : List Tree) :
    job.frames (t :: ts) = job.frameOf ⟨t, ts⟩ :: job.frames ts := rfl

theorem head?_frames (s : Site) : (job.frames s.above).head? = s.parent?.map job.frameOf := by
  obtain ⟨t, ts⟩ := s
  cases ts <;> rfl

/-! ### Questions about the node being visited -/

section Questions

variable {s : Site} {f : Frame} (hf : f.field = s.node.label.field)

theorem parentHere?_frames :
    (Ancestry.mk (f :: job.frames s.above)).parentHere? = s.parent?.map job.frameOf := by
  rw [Ancestry.parentHere?_cons, head?_frames]

theorem parentKindIsHere_frames (kind : Kind) :
    (Ancestry.mk (f :: job.frames s.above)).parentKindIsHere kind = s.isIn kind := by
  rw [Ancestry.parentKindIsHere_cons, head?_frames, Site.isIn, Option.any_map]
  rfl

include hf

theorem isPart_frames (field : String) (kind : Kind) :
    (Ancestry.mk (f :: job.frames s.above)).isPart field kind = s.isPart field kind := by
  rw [Ancestry.isPart, parentKindIsHere_frames, Ancestry.isChildHere_cons, Site.isPart, hf]
  obtain ⟨t, ts⟩ := s
  -- without a parent there is no kind to be had
  cases ts with
  | nil => simp [Site.isIn, Site.parent?]
  | cons u us => simp

theorem initialisesBinding_frames :
    (Ancestry.mk (f :: job.frames s.above)).initialisesBinding = s.isInitial :=
  job.isPart_frames hf "value" .variableBinding

theorem isAccessedProperty_frames :
    (Ancestry.mk (f :: job.frames s.above)).isAccessedProperty =
      s.isPart "property" .memberAccess :=
  job.isPart_frames hf "property" .memberAccess

theorem isLiteralMethodName_frames :
    (Ancestry.mk (f :: job.frames s.above)).isLiteralMethodName = s.isMethodName := by
  rw [Ancestry.isLiteralMethodName, job.isPart_frames hf, Site.isMethodName, Ancestry.up_one_cons]
  obtain ⟨t, ts⟩ := s
  cases ts with
  | nil => rfl
  | cons m ms =>
    rw [frames_cons, job.parentKindIsHere_frames (s := ⟨m, ms⟩)]
    rfl

theorem isDeclaring_frames :
    (Ancestry.mk (f :: job.frames s.above)).isDeclaring = s.declares := by
  rw [Ancestry.isDeclaring, job.isPart_frames hf, job.isPart_frames hf, Site.declares,
    Ancestry.up_one_cons]
  obtain ⟨t, ts⟩ := s
  congr 1
  cases ts with
  | nil => simp [Site.isPart, Site.isIn, Site.parent?]
  | cons p ps =>
    rw [frames_cons, job.parentKindIsHere_frames (s := ⟨p, ps⟩), Ancestry.up_two_cons_cons,
      Bool.and_assoc]
    congr 2
    cases ps with
    | nil => rfl
    | cons o os =>
      rw [frames_cons, job.initialisesBinding_frames (s := ⟨o, os⟩) rfl]
      rfl

/-- The name that an object literal adds to a context is the one that its lineage gives
it. -/
theorem contextName?_frames (hk : s.kind = .objectLiteral) :
    (job.contextName? (Ancestry.mk (f :: job.frames s.above))).map (·.path) =
      job.literalName? s := by
  have hchild : ∀ field, ((s.parent?.map job.frameOf).bind fun g => g.children.child? field) =
      s.parent?.bind fun q => q.node.child? field := by
    intro field
    rw [Option.bind_map]
    rfl
  rw [contextName?, job.initialisesBinding_frames hf, job.isPart_frames hf, parentHere?_frames,
    hchild, hchild, literalName?, if_pos hk]
  split
  · cases s.parent?.bind fun q => q.node.child? "name" with
    | none => rfl
    | some n => by_cases hn : n.label.kind = .identifier <;> simp [hn]
  · split <;> rfl

end Questions

end Job
end ScopeIndex
