import Mathlib
import ScopeIndex.Text.Separated

/-!
# Cutting and joining at a separator

A text is cut at each separator on its own, so the pieces of a text that was joined are the pieces
of its parts, one after the other.  An empty piece shows where separators stand: at the start, at
the end, or next to each other.

## Main results

* `Separated.split_append`, `Separated.pieces_ofPieces` — **what joining does to pieces.**
* `Separated.pieces_inj` — a text is known by its pieces.
* `Separated.nil_mem_split_iff` — which texts have an empty piece.
-/

namespace ScopeIndex
namespace Separated

section Lists

variable {α : Type} {sep : α} {cs : List α}

theorem infix_join (sep : α) {p : List α} : ∀ {ps : List (List α)}, p ∈ ps → p <:+: join sep ps
  | [q], h => by
    rw [List.mem_singleton.mp h, join_singleton]
  | q :: r :: ps, h => by
    rw [join_cons_cons]
    rcases List.mem_cons.mp h with rfl | h
    · exact (List.prefix_append _ _).isInfix
    · exact (infix_join sep h).trans
        ((List.suffix_cons sep _).trans (List.suffix_append q _)).isInfix

theorem join_append {ps qs : List (List α)} (hp : ps ≠ []) (hq : qs ≠ []) :
    join sep (ps ++ qs) = join sep ps ++ sep :: join sep qs := by
  induction ps with
  | nil => exact absurd rfl hp
  | cons p ps ih =>
    cases ps with
    | nil =>
      obtain ⟨q, qs, rfl⟩ := List.exists_cons_of_ne_nil hq
      rfl
    | cons r rs =>
      rw [List.cons_append, List.cons_append, join_cons_cons, ← List.cons_append,
        ih (List.cons_ne_nil r rs), join_cons_cons, List.append_assoc, List.cons_append]

variable [DecidableEq α]

/-- A piece stands in the text it was cut from. -/
theorem infix_of_mem_split {p : List α} (h : p ∈ split sep cs) : p <:+: cs := by
  have hjoin := infix_join sep h
  rwa [join_split] at hjoin

/-- No piece holds the separator. -/
theorem not_mem_of_mem_split {p : List α} (h : p ∈ split sep cs) : sep ∉ p := by
  induction cs generalizing p with
  | nil =>
    rw [split_nil, List.mem_singleton] at h
    rw [h]
    exact List.not_mem_nil
  | cons c cs ih =>
    by_cases hc : c = sep
    · subst hc
      rw [split_cons_sep, List.mem_cons] at h
      rcases h with rfl | h
      · exact List.not_mem_nil
      · exact ih h
    · obtain ⟨q, qs, hq⟩ := List.exists_cons_of_ne_nil (split_ne_nil sep cs)
      rw [split_cons_of_ne hc, hq, consHead, List.mem_cons] at h
      rcases h with rfl | h
      · exact List.not_mem_cons_of_ne_of_not_mem (fun heq => hc heq.symm)
          (ih (hq ▸ List.mem_cons_self))
      · exact ih (hq ▸ List.mem_cons_of_mem q h)

theorem map_split_ne_nil (sep : α) (g : List α → List α) (cs : List α) :
    (split sep cs).map g ≠ [] := fun h =>
  split_ne_nil sep cs (List.map_eq_nil_iff.mp h)

/-- Pieces that are changed, and get no separator by it, come back from the changed text. -/
theorem split_join_map_split {g : List α → List α} (hg : ∀ p, sep ∉ p → sep ∉ g p)
    (cs : List α) : split sep (join sep ((split sep cs).map g)) = (split sep cs).map g := by
  refine split_join (map_split_ne_nil sep g cs) fun q hq => ?_
  obtain ⟨p, hp, rfl⟩ := List.mem_map.mp hq
  exact hg p (not_mem_of_mem_split hp)

/-- Changing no piece does not change the text. -/
theorem join_map_split_eq_self {g : List α → List α} (h : ∀ p ∈ split sep cs, g p = p) :
    join sep ((split sep cs).map g) = cs := by
  rw [List.map_congr_left h, List.map_id', join_split]

/-- A text is cut at a separator, and both sides of it on their own. -/
theorem split_append (sep : α) (cs ds : List α) :
    split sep (cs ++ sep :: ds) = split sep cs ++ split sep ds := by
  induction cs with
  | nil => rw [List.nil_append, split_cons_sep, split_nil, List.singleton_append]
  | cons c cs ih =>
    by_cases hc : c = sep
    · subst hc
      rw [List.cons_append, split_cons_sep, split_cons_sep, ih, List.cons_append]
    · obtain ⟨p, ps, hp⟩ := List.exists_cons_of_ne_nil (split_ne_nil sep cs)
      rw [List.cons_append, split_cons_of_ne hc, split_cons_of_ne hc, ih, hp, List.cons_append,
        consHead, consHead, List.cons_append]

/-- A text is cut at its last separator in one way. -/
theorem eq_of_append_cons_eq {cs' ds ds' : List α} (h : sep ∉ ds) (h' : sep ∉ ds')
    (heq : cs ++ sep :: ds = cs' ++ sep :: ds') : cs = cs' ∧ ds = ds' := by
  have hsplit := congrArg (split sep) heq
  rw [split_append, split_append, split_of_not_mem h, split_of_not_mem h'] at hsplit
  obtain ⟨hcs, hds⟩ := List.append_inj' hsplit rfl
  have hjoin := congrArg (join sep) hcs
  rw [join_split, join_split] at hjoin
  exact ⟨hjoin, List.singleton_inj.mp hds⟩

/-- Changing each piece of a text changes both sides of a separator on their own. -/
theorem join_map_split_append (sep : α) (g : List α → List α) (cs ds : List α) :
    join sep ((split sep (cs ++ sep :: ds)).map g) =
      join sep ((split sep cs).map g) ++ sep :: join sep ((split sep ds).map g) := by
  rw [split_append, List.map_append,
    join_append (map_split_ne_nil sep g cs) (map_split_ne_nil sep g ds)]

/-- The pieces of a joined text are those of its parts. -/
theorem split_join_eq_flatMap {ps : List (List α)} (h : ps ≠ []) :
    split sep (join sep ps) = ps.flatMap (split sep) := by
  induction ps with
  | nil => exact absurd rfl h
  | cons p ps ih =>
    cases ps with
    | nil => simp
    | cons q qs =>
      rw [join_cons_cons, split_append, ih (List.cons_ne_nil q qs)]
      rfl

/-- The last piece is empty if the text is, or ends with the separator. -/
theorem getLast?_split_eq_nil_iff :
    (split sep cs).getLast? = some [] ↔ cs = [] ∨ cs.getLast? = some sep := by
  constructor
  · intro h
    obtain ⟨ps, hps⟩ := List.getLast?_eq_some_iff.mp h
    rw [← join_split sep cs, hps]
    by_cases hnil : ps = []
    · exact .inl (by rw [hnil]; rfl)
    · exact .inr (by rw [join_append hnil (by simp)]; simp)
  · rintro (rfl | h)
    · rfl
    · obtain ⟨ds, rfl⟩ := List.getLast?_eq_some_iff.mp h
      rw [split_append]
      simp

/-- A text has an empty piece if it is empty, starts or ends with the separator, or holds two of
them next to each other. -/
theorem nil_mem_split_iff : [] ∈ split sep cs ↔
    cs = [] ∨ cs.head? = some sep ∨ cs.getLast? = some sep ∨ [sep, sep] <:+: cs := by
  constructor
  · intro h
    obtain ⟨ps, qs, hsplit⟩ := List.append_of_mem h
    rw [← join_split sep cs, hsplit]
    by_cases hp : ps = [] <;> by_cases hq : qs = []
    · exact .inl (by rw [hp, hq]; rfl)
    · refine .inr (.inl ?_)
      obtain ⟨q, qs, rfl⟩ := List.exists_cons_of_ne_nil hq
      rw [hp, List.nil_append, join_cons_cons]
      rfl
    · refine .inr (.inr (.inl ?_))
      rw [hq, join_append hp (by simp)]
      simp
    · refine .inr (.inr (.inr ?_))
      obtain ⟨q, qs, rfl⟩ := List.exists_cons_of_ne_nil hq
      rw [join_append hp (by simp), join_cons_cons]
      exact ⟨join sep ps, join sep (q :: qs), by simp⟩
  · rintro (rfl | h | h | ⟨ds, es, rfl⟩)
    · exact List.mem_cons_self
    · obtain ⟨ds, rfl⟩ := List.head?_eq_some_iff.mp h
      rw [split_cons_sep]
      exact List.mem_cons_self
    · exact List.mem_of_getLast? (getLast?_split_eq_nil_iff.mpr (.inr h))
    · rw [List.append_assoc, List.cons_append, split_append, List.singleton_append, split_cons_sep]
      exact List.mem_append_right _ List.mem_cons_self

end Lists

/-! ### Texts -/

theorem pieces_of_not_mem {sep : Char} {s : String} (h : sep ∉ s.toList) : pieces sep s = [s] := by
  rw [pieces, split_of_not_mem h, List.map_singleton, String.ofList_toList]

/-- The pieces of texts that are free of the separator are the texts. -/
theorem flatMap_pieces {sep : Char} {ss : List String} (h : ∀ s ∈ ss, sep ∉ s.toList) :
    ss.flatMap (pieces sep) = ss := by
  induction ss with
  | nil => rfl
  | cons s ss ih =>
    rw [List.forall_mem_cons] at h
    rw [List.flatMap_cons, pieces_of_not_mem h.1, ih h.2, List.singleton_append]

/-- Texts with the same pieces are the same. -/
theorem pieces_inj (sep : Char) {s t : String} : pieces sep s = pieces sep t ↔ s = t := by
  refine ⟨fun h => ?_, congrArg _⟩
  have hsplit : split sep s.toList = split sep t.toList :=
    List.map_injective_iff.mpr (fun _ _ => String.ofList_inj.mp) h
  rw [← String.toList_inj, ← join_split sep s.toList, hsplit, join_split]

/-- The pieces of a text are those of the parts that it was joined from. -/
theorem pieces_ofPieces (sep : Char) {ss : List String} (h : ss ≠ []) :
    pieces sep (ofPieces sep ss) = ss.flatMap (pieces sep) := by
  have hne : ss.map String.toList ≠ [] := by simpa using h
  rw [pieces, ofPieces, String.toList_ofList, split_join_eq_flatMap hne, List.flatMap_map,
    List.map_flatMap]
  rfl

theorem toList_dot (s t : String) : (s ++ "." ++ t).toList = s.toList ++ '.' :: t.toList := by
  simp

theorem pieces_dot (s t : String) : pieces '.' (s ++ "." ++ t) = pieces '.' s ++ pieces '.' t := by
  rw [pieces, toList_dot, split_append, List.map_append]
  rfl

/-- Only no part at all, and a single empty one, make an empty text. -/
theorem isEmpty_ofPieces_iff {sep : Char} {ss : List String} :
    (ofPieces sep ss).isEmpty = true ↔ ss = [] ∨ ss = [""] := by
  rw [ofPieces, String.isEmpty_iff, String.ofList_eq_empty_iff]
  match ss with
  | [] => simp
  | [s] => simp
  | s :: t :: ss => simp

end Separated
end ScopeIndex
