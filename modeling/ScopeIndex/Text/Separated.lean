/-!
# Text cut at a separator

A dotted symbol path, a slash path and an ignore pattern are all one text whose pieces stand between
occurrences of one character.  `split` cuts such a text and `join` puts it together again.  A text
always has at least one piece, so the empty text is one empty piece.

## Main definitions

* `Separated.split` — the pieces of a text.
* `Separated.join` — the text of a list of pieces.

## Main results

* `Separated.join_split` — cutting loses nothing.
* `Separated.split_join` — pieces free of the separator come back from their text.
-/

namespace ScopeIndex
namespace Separated

variable {α : Type}

/-- Put `c` in front of the first piece. -/
def consHead (c : α) : List (List α) → List (List α)
  | [] => [[c]]
  | p :: ps => (c :: p) :: ps

/-- The text of a list of pieces, with `sep` between neighbours. -/
def join (sep : α) : List (List α) → List α
  | [] => []
  | [p] => p
  | p :: q :: ps => p ++ sep :: join sep (q :: ps)

@[simp] theorem join_nil (sep : α) : join sep ([] : List (List α)) = [] := rfl

@[simp] theorem join_singleton (sep : α) (p : List α) : join sep [p] = p := rfl

@[simp] theorem join_cons_cons (sep : α) (p q : List α) (ps : List (List α)) :
    join sep (p :: q :: ps) = p ++ sep :: join sep (q :: ps) := rfl

theorem join_consHead (sep c : α) {ps : List (List α)} (h : ps ≠ []) :
    join sep (consHead c ps) = c :: join sep ps := by
  match ps with
  | [] => exact absurd rfl h
  | [p] => rfl
  | p :: q :: ps => rfl

variable [DecidableEq α]

/-- The pieces of a text, cut at every `sep`. -/
def split (sep : α) : List α → List (List α)
  | [] => [[]]
  | c :: cs => if c = sep then [] :: split sep cs else consHead c (split sep cs)

@[simp] theorem split_nil (sep : α) : split sep [] = [[]] := rfl

@[simp] theorem split_cons_sep (sep : α) (cs : List α) :
    split sep (sep :: cs) = [] :: split sep cs := by
  simp [split]

theorem split_cons_of_ne {sep c : α} (h : c ≠ sep) (cs : List α) :
    split sep (c :: cs) = consHead c (split sep cs) := by
  simp [split, h]

/-- Every text has a first piece. -/
theorem split_ne_nil (sep : α) (cs : List α) : split sep cs ≠ [] := by
  cases cs with
  | nil => simp
  | cons c cs =>
      by_cases h : c = sep
      · simp [split, h]
      · cases hs : split sep cs <;> simp [split, h, hs, consHead]

/-- Cutting loses nothing. -/
theorem join_split (sep : α) (cs : List α) : join sep (split sep cs) = cs := by
  induction cs with
  | nil => rfl
  | cons c cs ih =>
      by_cases h : c = sep
      · obtain ⟨p, ps, hp⟩ := List.exists_cons_of_ne_nil (split_ne_nil sep cs)
        subst h
        rw [split_cons_sep, hp, join_cons_cons, ← hp, ih, List.nil_append]
      · rw [split_cons_of_ne h, join_consHead sep c (split_ne_nil sep cs), ih]

theorem split_append_sep {sep : α} {p : List α} (hp : sep ∉ p) (cs : List α) :
    split sep (p ++ sep :: cs) = p :: split sep cs := by
  induction p with
  | nil => simp
  | cons c p ih =>
      have hc : c ≠ sep := fun h => hp (by simp [h])
      have hp' : sep ∉ p := fun h => hp (by simp [h])
      rw [List.cons_append, split_cons_of_ne hc, ih hp', consHead]

theorem split_of_not_mem {sep : α} {p : List α} (hp : sep ∉ p) : split sep p = [p] := by
  induction p with
  | nil => rfl
  | cons c p ih =>
      have hc : c ≠ sep := fun h => hp (by simp [h])
      have hp' : sep ∉ p := fun h => hp (by simp [h])
      rw [split_cons_of_ne hc, ih hp', consHead]

/-- Pieces free of the separator come back from their text. -/
theorem split_join {sep : α} {ps : List (List α)} (hne : ps ≠ []) (h : ∀ p ∈ ps, sep ∉ p) :
    split sep (join sep ps) = ps := by
  match ps with
  | [] => exact absurd rfl hne
  | [p] => exact split_of_not_mem (h p (by simp))
  | p :: q :: ps =>
      rw [join_cons_cons, split_append_sep (h p (by simp)),
        split_join (List.cons_ne_nil q ps) fun r hr => h r (by simp [hr])]

/-- The pieces of a text as texts. -/
def pieces (sep : Char) (s : String) : List String := (split sep s.toList).map String.ofList

/-- The text whose pieces are given. -/
def ofPieces (sep : Char) (ps : List String) : String :=
  String.ofList (join sep (ps.map String.toList))

end Separated
end ScopeIndex
