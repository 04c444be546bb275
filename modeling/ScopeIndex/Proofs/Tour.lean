import Mathlib
import ScopeIndex.Proofs.Leaks

/-!
# The frames of a walk

A cursor has no stack of its own: it goes down, on and up again, and the walk enters and leaves
nodes as it does.  Frames are kept for the named nodes alone, while the cursor also goes through
nodes that are not named, and may find named ones below them.

Here the recursive walk is written with the ancestors of each node.  Between two visits some nodes
are entered and not yet left; a visit adds one to them or takes the innermost off, and the next
visit finds them so.  The frames are those of the named ones among them: one visit keeps this so,
hence every part of a walk does.

## Main definitions

* `Waypoint`, `Forest.tour` — the recursive walk, with the ancestors of each node.
* `Waypoint.before`, `Waypoint.after` — the nodes that are entered and not yet left.
* `Linked` — visits of which each finds what the one before it has left.
* `Frame.IsOf`, `Ancestry.Holds` — the frame of a node, and those of a lineage.

## Main results

* `Forest.linked_tour` — the visits of a walk are linked.
* `Pass.step_frames`, `Pass.run_frames` — the frames after one visit, and after linked visits.
* `Pass.walk_tour` — **the walk by cursor moves is the recursive one, and its frames are those of
  the named ancestors.**
-/

namespace ScopeIndex

/-! ### The walk with ancestors -/

/-- A visit with the ancestors of its node, parent first. -/
structure Waypoint where
  /-- The visit. -/
  visit : Visit
  /-- The ancestors of the node. -/
  above : List Tree

namespace Waypoint

/-- The nodes that are entered and not yet left when the visit begins, innermost first. -/
def before (w : Waypoint) : List Tree :=
  match w.visit with
  | .enter _ => w.above
  | .leave t => t :: w.above

/-- The nodes that are entered and not yet left when the visit is over. -/
def after (w : Waypoint) : List Tree :=
  match w.visit with
  | .enter t => t :: w.above
  | .leave _ => w.above

end Waypoint

/-- The walk over a row whose ancestors are `above`: enter a node, walk over its children, leave
it, and go on with the rest of the row. -/
def Forest.tour (above : List Tree) : Forest → List Waypoint
  | .nil => []
  | .cons l kids rest =>
      ⟨.enter ⟨l, kids⟩, above⟩ :: kids.tour (⟨l, kids⟩ :: above) ++
        ⟨.leave ⟨l, kids⟩, above⟩ :: rest.tour above

/-- The walk over a tree. -/
def Tree.tour (t : Tree) : List Waypoint := t.toForest.tour []

theorem Forest.map_visit_tour (f : Forest) (above : List Tree) :
    (f.tour above).map (·.visit) = f.visits := by
  induction f generalizing above with
  | nil => rfl
  | cons l kids rest ihk ihr => simp [tour, visits, ihk, ihr]

/-- Each node is entered once and left once. -/
theorem Forest.length_visits (f : Forest) : f.visits.length = 2 * f.size := by
  induction f with
  | nil => rfl
  | cons l kids rest ihk ihr =>
    simp only [visits, size, List.cons_append, List.length_cons, List.length_append, ihk, ihr]
    omega

/-- A node is left after it was entered and its children were walked over. -/
theorem Forest.exists_enter_of_leave {n : Tree} {ts : List Tree} (f : Forest) :
    ∀ {above : List Tree} {before after : List Waypoint},
      f.tour above = before ++ ⟨.leave n, ts⟩ :: after →
      ∃ earlier, before = earlier ++ ⟨.enter n, ts⟩ :: n.children.tour (n :: ts) := by
  induction f with
  | nil =>
    intro above before after h
    exact absurd h (by simp [tour])
  | cons l kids rest ihk ihr =>
    intro above before after h
    rcases cases_of_append_eq h with ⟨-, hw⟩ | ⟨b, a, rfl, hk⟩ | ⟨rfl, hw⟩ | ⟨b, rfl, hr⟩
    · cases hw
    · -- below the first node
      obtain ⟨earlier, rfl⟩ := ihk hk
      exact ⟨⟨.enter ⟨l, kids⟩, above⟩ :: earlier, rfl⟩
    · -- the first node itself
      cases hw
      exact ⟨[], rfl⟩
    · -- behind it
      obtain ⟨earlier, rfl⟩ := ihr hr
      exact ⟨⟨.enter ⟨l, kids⟩, above⟩ :: kids.tour (⟨l, kids⟩ :: above) ++
        ⟨.leave ⟨l, kids⟩, above⟩ :: earlier, by simp⟩

/-- Visits of which each finds entered what the one before it has left so: `start` before the first
and `stop` after the last. -/
inductive Linked : List Tree → List Waypoint → List Tree → Prop
  | nil (ts : List Tree) : Linked ts [] ts
  | cons (w : Waypoint) {ws : List Waypoint} {stop : List Tree} :
      Linked w.after ws stop → Linked w.before (w :: ws) stop

namespace Linked

variable {start middle stop : List Tree} {ws vs : List Waypoint} {w : Waypoint}

theorem append (h : Linked start ws middle) (h' : Linked middle vs stop) :
    Linked start (ws ++ vs) stop := by
  induction h with
  | nil ts => exact h'
  | cons w _ ih => exact .cons w (ih h')

/-- What a visit finds is what those before it have left. -/
theorem of_append_cons (h : Linked start (ws ++ w :: vs) stop) : Linked start ws w.before := by
  induction ws generalizing start with
  | nil =>
    cases h with
    | cons _ _ => exact .nil _
  | cons v ws ih =>
    cases h with
    | cons _ h => exact .cons v (ih h)

end Linked

/-- The visits of a walk over a row are linked, and leave entered what was so before. -/
theorem Forest.linked_tour (f : Forest) (above : List Tree) :
    Linked above (f.tour above) above := by
  induction f generalizing above with
  | nil => exact .nil above
  | cons l kids rest ihk ihr =>
    have hkids : Linked (⟨l, kids⟩ :: above) (kids.tour (⟨l, kids⟩ :: above)) (⟨l, kids⟩ :: above) :=
      ihk _
    have hrest : Linked (⟨l, kids⟩ :: above) (⟨.leave ⟨l, kids⟩, above⟩ :: rest.tour above) above :=
      .cons ⟨.leave ⟨l, kids⟩, above⟩ (ihr above)
    exact .cons ⟨.enter ⟨l, kids⟩, above⟩ (hkids.append hrest)

/-! ### Frames of a lineage -/

/-- A frame is that of a node. -/
structure Frame.IsOf (f : Frame) (t : Tree) : Prop where
  kind : f.kind = t.label.kind
  field : f.field = t.label.field
  children : f.children = t.children

/-- The frames are those of a lineage, the root first. -/
structure Ancestry.Holds (a : Ancestry) (lineage : List Tree) : Prop where
  depth : a.depth = lineage.length
  frame : ∀ (i : Nat) (t : Tree), lineage[i]? = some t → ∃ f, a.frameAt? i = some f ∧ f.IsOf t

theorem Job.isOf_frameOf (job : Job) (s : Site) : (job.frameOf s).IsOf s.node := ⟨rfl, rfl, rfl⟩

theorem Job.length_frames (job : Job) (ts : List Tree) : (job.frames ts).length = ts.length := by
  induction ts with
  | nil => rfl
  | cons t ts ih => rw [frames_cons, List.length_cons, List.length_cons, ih]

theorem Job.exists_frame (job : Job) {ts : List Tree} {i : Nat} {t : Tree} (h : ts[i]? = some t) :
    ∃ f, (job.frames ts)[i]? = some f ∧ f.IsOf t := by
  induction ts generalizing i with
  | nil => cases h
  | cons u us ih =>
    cases i with
    | zero =>
      obtain rfl : u = t := Option.some.inj h
      exact ⟨_, rfl, job.isOf_frameOf ⟨u, us⟩⟩
    | succ i => exact ih h

/-- The frames of a lineage are its frames. -/
theorem Job.holds_frames (job : Job) (ts : List Tree) :
    (Ancestry.mk (job.frames ts)).Holds ts.reverse where
  depth := by rw [Ancestry.depth, job.length_frames, List.length_reverse]
  frame := by
    intro i t ht
    have hi : i < ts.length := by simpa using (List.getElem?_eq_some_iff.mp ht).1
    rw [List.getElem?_reverse hi] at ht
    obtain ⟨f, hf, hof⟩ := job.exists_frame ht
    refine ⟨f, ?_, hof⟩
    rw [Ancestry.frameAt?, if_pos, Int.toNat_natCast, List.getElem?_reverse, job.length_frames, hf]
    · rwa [job.length_frames]
    · simpa [Ancestry.depth, job.length_frames] using hi

/-! ### Visits -/

/-- The named ones among nodes. -/
def namedAmong (ts : List Tree) : List Tree := ts.filter (·.label.named)

theorem namedAmong_cons_of_named {t : Tree} (hn : t.label.named = true) (ts : List Tree) :
    namedAmong (t :: ts) = t :: namedAmong ts := List.filter_cons_of_pos hn

theorem namedAmong_cons_of_anonymous {t : Tree} (hn : t.label.named = false) (ts : List Tree) :
    namedAmong (t :: ts) = namedAmong ts := List.filter_cons_of_neg (by simp [hn])

namespace Pass

variable {job : Job} {p p' : Pass} {start stop above : List Tree} {ws : List Waypoint} {t : Tree}

/-- Entering a node adds its frame if it is named. -/
theorem enter_frames (ha : p.ancestry = ⟨job.frames (namedAmong above)⟩)
    (h : p.enter job t = .ok p') : p'.ancestry = ⟨job.frames (namedAmong (t :: above))⟩ := by
  cases hn : t.label.named with
  | true =>
    have hbrings := enter_brings hn ha
    rw [h] at hbrings
    rw [namedAmong_cons_of_named hn]
    exact hbrings.ancestry
  | false =>
    rw [enter_of_anonymous hn] at h
    cases h
    rw [namedAmong_cons_of_anonymous hn, ha]

/-- Leaving a node takes its frame off if it is named. -/
theorem leave_frames (ha : p.ancestry = ⟨job.frames (namedAmong (t :: above))⟩)
    (h : p.leave job t = .ok p') : p'.ancestry = ⟨job.frames (namedAmong above)⟩ := by
  cases hn : t.label.named with
  | true =>
    rw [namedAmong_cons_of_named hn] at ha
    obtain ⟨q, hq, -, -, ⟨-, rfl⟩ | ⟨-, rfl⟩⟩ := leave_eq_ok hn ha h
    · exact hq
    · exact hq
  | false =>
    rw [leave_of_anonymous hn] at h
    cases h
    rw [ha, namedAmong_cons_of_anonymous hn]

/-- One visit: if the frames are those of the named nodes that are entered before it, then they are
those of the named nodes that are entered after it. -/
theorem step_frames {w : Waypoint} (ha : p.ancestry = ⟨job.frames (namedAmong w.before)⟩)
    (h : p.step job w.visit = .ok p') : p'.ancestry = ⟨job.frames (namedAmong w.after)⟩ := by
  obtain ⟨visit, above⟩ := w
  cases visit with
  | enter t => exact enter_frames ha h
  | leave t => exact leave_frames ha h

/-- Linked visits. -/
theorem run_frames (hlinked : Linked start ws stop)
    (ha : p.ancestry = ⟨job.frames (namedAmong start)⟩)
    (h : (ws.map (·.visit)).foldlM (step job) p = .ok p') :
    p'.ancestry = ⟨job.frames (namedAmong stop)⟩ := by
  induction hlinked generalizing p with
  | nil ts =>
    cases h
    exact ha
  | cons w _ ih =>
    obtain ⟨q, hq, h⟩ := exists_of_bind_eq_ok h
    exact ih (step_frames ha hq) h

/-- **The walk by cursor moves is the recursive one, and its frames are those of the named
ancestors.**  Whatever opens and closes scopes, and as far as a walk comes without failing: after
entering a named node the frames are those of its named ancestors, the root first, and of the node
itself; whenever a named node is left there is a frame to be taken off, which is its own, and the
others are as they were when the node was entered; and at the end of the walk there is none.  A
node may have ancestors that are not named. -/
theorem walk_tour (job : Job) (t : Tree) :
    (Cursor.visits t = t.tour.map (·.visit) ∧ (Cursor.visits t).length = 2 * t.toForest.size) ∧
      (∀ before n above after p, t.tour = before ++ ⟨.enter n, above⟩ :: after →
        (before.map (·.visit)).foldlM (step job) {} = .ok p → n.label.named = true →
        ∀ p', p.enter job n = .ok p' →
          p'.ancestry.Holds ((namedAmong above).reverse ++ [n])) ∧
      (∀ before n above after p, t.tour = before ++ ⟨.leave n, above⟩ :: after →
        (before.map (·.visit)).foldlM (step job) {} = .ok p → n.label.named = true →
        ∃ earlier q f, before = earlier ++ ⟨.enter n, above⟩ :: n.children.tour (n :: above) ∧
          (earlier.map (·.visit)).foldlM (step job) {} = .ok q ∧
          p.ancestry.pop = .ok (f, q.ancestry) ∧ f.IsOf n ∧
          ∀ p', p.leave job n = .ok p' → p'.ancestry = q.ancestry) ∧
      ∀ p, (Cursor.visits t).foldlM (step job) {} = .ok p → p.ancestry.depth = 0 := by
  have hvisits : Cursor.visits t = t.tour.map (·.visit) := by
    rw [Cursor.visits_eq, Tree.tour, Forest.map_visit_tour, Tree.visits]
  have hlinked : Linked [] t.tour [] := t.toForest.linked_tour []
  -- wherever a walk has come, the frames are those of the nodes that are entered
  have hframes : ∀ {before w after p}, t.tour = before ++ w :: after →
      (before.map (·.visit)).foldlM (step job) {} = .ok p →
      p.ancestry = ⟨job.frames (namedAmong w.before)⟩ := fun htour hp =>
    run_frames (htour ▸ hlinked).of_append_cons rfl hp
  refine ⟨⟨hvisits, ?_⟩, ?_, ?_, ?_⟩
  · rw [Cursor.visits_eq, Tree.visits, Forest.length_visits]
  · intro before n above after p htour hp hn p' hp'
    rw [enter_frames (hframes htour hp) hp', namedAmong_cons_of_named hn, ← List.reverse_cons]
    exact job.holds_frames _
  · intro before n above after p htour hp hn
    have ha : p.ancestry = ⟨job.frames (namedAmong (n :: above))⟩ := hframes htour hp
    obtain ⟨earlier, rfl⟩ := t.toForest.exists_enter_of_leave htour
    have hearlier := hp
    rw [List.map_append, List.foldlM_append] at hearlier
    obtain ⟨q, hq, -⟩ := exists_of_bind_eq_ok hearlier
    have hqa : q.ancestry = ⟨job.frames (namedAmong above)⟩ := by
      rw [List.append_assoc] at htour
      exact hframes htour hq
    refine ⟨earlier, q, job.frameOf ⟨n, namedAmong above⟩, rfl, hq, ?_, job.isOf_frameOf _,
      fun p' hp' => (leave_frames ha hp').trans hqa.symm⟩
    rw [ha, hqa, namedAmong_cons_of_named hn]
    rfl
  · intro p hp
    rw [hvisits] at hp
    rw [run_frames hlinked rfl hp]
    rfl

end Pass

/-! ### A name below a bracket -/

namespace Sample

/-- A name. -/
def bracketedName : Tree := ⟨{ type := "identifier", span := ⟨1, 2⟩ }, .nil⟩

/-- A bracket, which is not named, with the name below it. -/
def bracket : Tree := ⟨{ type := "(", span := ⟨0, 3⟩, named := false }, bracketedName.toForest⟩

/-- A program with the bracket below it. -/
def bracketed : Tree := ⟨{ type := "program", span := ⟨0, 3⟩ }, bracket.toForest⟩

/-- A pass over it. -/
def bracketedJob : Job := .ofRules (.ofText "(a)") "a.js" ⟨false, "?", .ofTypes ["program"]⟩

end Sample

theorem Pass.walk_tour_bracketed :
    ∃ p p', [Visit.enter Sample.bracketed, .enter Sample.bracket].foldlM
        (step Sample.bracketedJob) {} = .ok p ∧
      p.enter Sample.bracketedJob Sample.bracketedName = .ok p' ∧
      p'.ancestry.Holds [Sample.bracketed, Sample.bracketedName] := by
  obtain ⟨-, hentered, -⟩ := walk_tour Sample.bracketedJob Sample.bracketed
  refine ⟨_, _, rfl, rfl, ?_⟩
  exact hentered [⟨.enter Sample.bracketed, []⟩, ⟨.enter Sample.bracket, [Sample.bracketed]⟩]
    Sample.bracketedName [Sample.bracket, Sample.bracketed] _ _ rfl rfl rfl _ rfl

end ScopeIndex
