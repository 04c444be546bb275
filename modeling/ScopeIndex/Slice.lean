/-!
# Positions that count from either end

A cut of a list is given by integer positions.  A position from zero on counts from the front; a negative
one counts from the back.  A position that lies outside the list is moved to its nearer end.

## Main definitions

* `Slice.bound` — the place in a list that a position means.
* `Slice.front` — the part of a list before a position.
-/

namespace ScopeIndex
namespace Slice

/-- The place that position `i` means in a list of `n` items. -/
def bound (n : Nat) (i : Int) : Nat :=
  if i < 0 then (n + i).toNat else min i.toNat n

theorem bound_le (n : Nat) (i : Int) : bound n i ≤ n := by
  unfold bound
  split <;> omega

/-- From zero on and within the list, a position means itself. -/
theorem bound_of_le {n : Nat} {i : Int} (h0 : 0 ≤ i) (hn : i ≤ n) : bound n i = i.toNat := by
  unfold bound
  split <;> omega

/-- The part of a list before a position. -/
def front {α : Type} (i : Int) (xs : List α) : List α := xs.take (bound xs.length i)

end Slice
end ScopeIndex
