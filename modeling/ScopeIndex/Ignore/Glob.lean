import ScopeIndex.Ignore.Piece

/-!
# Globs

One segment of a path pattern, read character by character.  A star stands for any run of characters, a
question mark for one, a bracket expression for one of a set, and a backslash takes the character behind
it literally.

## Main definitions

* `GlobState` — what the reader is in the middle of.
* `Glob.pieces` — the pieces of a segment.

## References

The syntax `gitwildmatch` of pathspec: what it makes of one segment.
-/

namespace ScopeIndex

/-- What is wrong with a segment. -/
inductive GlobFlaw where
  /-- The segment ends in a backslash that escapes nothing. -/
  | danglingEscape
  /-- A bracket expression is not closed. -/
  | unclosed
  deriving DecidableEq, Repr

/-- What the reader of a segment is in the middle of. -/
inductive GlobState where
  /-- Nothing. -/
  | plain
  /-- A backslash was read. -/
  | escaped
  /-- An opening bracket was read. -/
  | opened
  /-- An opening bracket and a mark of negation were read. -/
  | negated
  /-- Some of the text between brackets was read; it is kept backwards. -/
  | inside (negated : Bool) (content : List Char)
  deriving DecidableEq, Repr

namespace Glob

/-- The pieces of a segment, read on from a state.  The first character behind the opening bracket and the
mark of negation belongs to the set, also when it is a closing bracket. -/
def piecesFrom : GlobState → List Char → Except GlobFlaw (List Piece)
  | .plain, [] => .ok []
  | .escaped, [] => .error .danglingEscape
  | _, [] => .error .unclosed
  | .plain, c :: cs =>
      if c = '\\' then piecesFrom .escaped cs
      else if c = '[' then piecesFrom .opened cs
      else if c = '*' then (piecesFrom .plain cs).map (Piece.run :: ·)
      else if c = '?' then (piecesFrom .plain cs).map (Piece.one :: ·)
      else (piecesFrom .plain cs).map (Piece.char c :: ·)
  | .escaped, c :: cs => (piecesFrom .plain cs).map (Piece.char c :: ·)
  | .opened, c :: cs =>
      if c = '!' ∨ c = '^' then piecesFrom .negated cs else piecesFrom (.inside false [c]) cs
  | .negated, c :: cs => piecesFrom (.inside true [c]) cs
  | .inside negated content, c :: cs =>
      if c = ']' then
        (piecesFrom .plain cs).map (Piece.bracket ⟨negated, Bracket.rangesOf content.reverse⟩ :: ·)
      else piecesFrom (.inside negated (c :: content)) cs

/-- The pieces of a segment. -/
def pieces (segment : List Char) : Except GlobFlaw (List Piece) := piecesFrom .plain segment

/-- Is a character none of those with a role in a segment? -/
def isOrdinary (c : Char) : Bool := !(['\\', '[', '*', '?'].contains c)

/-- A segment of ordinary characters stands for itself. -/
theorem pieces_of_isOrdinary {segment : List Char} (h : ∀ c ∈ segment, isOrdinary c) :
    pieces segment = .ok (segment.map Piece.char) := by
  induction segment with
  | nil => rfl
  | cons c cs ih =>
      have hc : isOrdinary c := h c (by simp)
      simp only [isOrdinary, Bool.not_eq_true', List.contains_cons, List.contains_nil, Bool.or_false,
        Bool.or_eq_false_iff, beq_eq_false_iff_ne] at hc
      have ih := ih fun d hd => h d (by simp [hd])
      rw [pieces] at ih
      simp [pieces, piecesFrom, hc, ih, Except.map]

end Glob
end ScopeIndex
