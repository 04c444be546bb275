import Mathlib

/-!
# Computations that can fail

What is known of the results when a computation that can fail is made for every item of a list, and
how two such computations are compared.

## Main definitions

* `Alike` — two computations with related results, or with the same failure.

## Main results

* `exists_of_mapM_append`, `exists_of_mapM_cons`, `exists_of_mem_mapM` — the results of a list.
* `foldlM_induction` — what every step preserves holds in the end.
* `alike_mapM_insert` — one item more.
-/

namespace ScopeIndex

/-- A list that is read in parts. -/
theorem exists_of_mapM_append {α β ε : Type} {f : α → Except ε β} {xs ys : List α} {zs : List β}
    (h : (xs ++ ys).mapM f = .ok zs) :
    ∃ us vs, xs.mapM f = .ok us ∧ ys.mapM f = .ok vs ∧ zs = us ++ vs := by
  rw [List.mapM_append] at h
  cases hxs : xs.mapM f with
  | error e =>
    rw [hxs] at h
    cases h
  | ok us =>
    cases hys : ys.mapM f with
    | error e =>
      rw [hxs, hys] at h
      cases h
    | ok vs =>
      rw [hxs, hys] at h
      exact ⟨us, vs, rfl, rfl, (Except.ok.inj h).symm⟩

theorem exists_of_mapM_cons {α β ε : Type} {f : α → Except ε β} {x : α} {xs : List α} {zs : List β}
    (h : (x :: xs).mapM f = .ok zs) :
    ∃ y ys, f x = .ok y ∧ xs.mapM f = .ok ys ∧ zs = y :: ys := by
  rw [List.mapM_cons] at h
  cases hx : f x with
  | error e =>
    rw [hx] at h
    cases h
  | ok y =>
    cases hxs : xs.mapM f with
    | error e =>
      rw [hx, hxs] at h
      cases h
    | ok ys =>
      rw [hx, hxs] at h
      exact ⟨y, ys, rfl, rfl, (Except.ok.inj h).symm⟩

theorem exists_of_mem_mapM {α β ε : Type} {f : α → Except ε β} {xs : List α} {ys : List β}
    (h : xs.mapM f = .ok ys) : ∀ y ∈ ys, ∃ x ∈ xs, f x = .ok y := by
  induction xs generalizing ys with
  | nil =>
    cases h
    simp
  | cons x xs ih =>
    obtain ⟨z, zs, hx, hxs, rfl⟩ := exists_of_mapM_cons h
    intro y hy
    rcases List.mem_cons.mp hy with rfl | hy
    · exact ⟨x, List.mem_cons_self, hx⟩
    · obtain ⟨x', hx', hfx'⟩ := ih hxs y hy
      exact ⟨x', List.mem_cons_of_mem x hx', hfx'⟩

/-- What every step preserves holds in the end. -/
theorem foldlM_induction {α β ε : Type} {f : β → α → Except ε β} {motive : β → Prop} {xs : List α}
    {b b' : β} (h : xs.foldlM f b = .ok b') (hb : motive b)
    (hstep : ∀ b x b', motive b → f b x = .ok b' → motive b') : motive b' := by
  induction xs generalizing b with
  | nil =>
    cases h
    exact hb
  | cons x xs ih =>
    rw [List.foldlM_cons] at h
    cases hx : f b x with
    | error e =>
      rw [hx] at h
      cases h
    | ok c =>
      rw [hx] at h
      exact ih h (hstep b x c hb hx)

/-- Two computations that succeed with related results, or fail in the same way. -/
inductive Alike {α β ε : Type} (r : α → β → Prop) : Except ε α → Except ε β → Prop where
  | ok {a : α} {b : β} (h : r a b) : Alike r (.ok a) (.ok b)
  | error (e : ε) : Alike r (.error e) (.error e)

theorem Alike.refl {α ε : Type} {r : α → α → Prop} (h : ∀ a, r a a) (x : Except ε α) :
    Alike r x x := by
  cases x with
  | error e => exact .error e
  | ok a => exact .ok (h a)

theorem Alike.map {α β α' β' ε : Type} {r : α → β → Prop} {r' : α' → β' → Prop} {f : α → α'}
    {g : β → β'} {x : Except ε α} {y : Except ε β} (h : Alike r x y)
    (hfg : ∀ a b, r a b → r' (f a) (g b)) : Alike r' (x.map f) (y.map g) := by
  cases h with
  | ok hab => exact .ok (hfg _ _ hab)
  | error e => exact .error e

/-- One item more that can be read. -/
theorem alike_mapM_insert {α β ε : Type} {f : α → Except ε β} {x : α} {y : β} (h : f x = .ok y)
    (xs ys : List α) : Alike (fun us vs => ∃ before after, us = before ++ y :: after ∧
      vs = before ++ after) ((xs ++ x :: ys).mapM f) ((xs ++ ys).mapM f) := by
  rw [List.mapM_append, List.mapM_append, List.mapM_cons, h]
  cases xs.mapM f with
  | error e => exact .error e
  | ok before =>
    cases ys.mapM f with
    | error e => exact .error e
    | ok after => exact .ok ⟨before, after, rfl, rfl⟩

end ScopeIndex
