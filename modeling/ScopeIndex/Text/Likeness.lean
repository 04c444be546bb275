/-!
# Likeness of words

How much two words have in common: the longest run of characters that both hold, and then the same to
the left and to the right of it.  Their likeness is twice the number of these characters over the number
of characters of both.  It serves to find the words that a mistyped one may have meant.

## Main definitions

* `Likeness.Match`, `Likeness.longest` — the longest run that two words have in common.
* `Likeness.matched` — the number of characters in common.
* `Likeness.closest` — the words most like another.
-/

namespace ScopeIndex
namespace Likeness

/-- A run of characters that two words have in common. -/
structure Match where
  /-- Where it starts in the first word. -/
  left : Nat
  /-- Where it starts in the second word. -/
  right : Nat
  /-- How long it is. -/
  size : Nat
  deriving DecidableEq, Repr

/-- How many characters two words have in common at their starts. -/
def shared : List Char → List Char → Nat
  | c :: cs, d :: ds => if c = d then shared cs ds + 1 else 0
  | _, _ => 0

/-- The first of the longest runs that start at `left` in the first word. -/
def longestAt (left : Nat) (cs : List Char) (best : Match) : Nat → List Char → Match
  | _, [] => best
  | right, d :: ds =>
      let size := shared cs (d :: ds)
      longestAt left cs (if best.size < size then ⟨left, right, size⟩ else best) (right + 1) ds

/-- The first of the longest runs, by where they start in the first word. -/
def longestFrom (ds : List Char) (best : Match) : Nat → List Char → Match
  | _, [] => best
  | left, c :: cs => longestFrom ds (longestAt left (c :: cs) best 0 ds) (left + 1) cs

/-- The longest run that two words have in common; of several the first in the first word, and then the
first in the second one. -/
def longest (cs ds : List Char) : Match := longestFrom ds ⟨0, 0, 0⟩ 0 cs

/-- The number of characters that two words have in common, by at most `fuel` levels of runs. -/
def matchedBy : Nat → List Char → List Char → Nat
  | 0, _, _ => 0
  | fuel + 1, cs, ds =>
      let m := longest cs ds
      if m.size = 0 then 0
      else
        m.size + matchedBy fuel (cs.take m.left) (ds.take m.right)
          + matchedBy fuel (cs.drop (m.left + m.size)) (ds.drop (m.right + m.size))

/-- The number of characters that two words have in common.  Each level takes one from the first word. -/
def matched (cs ds : List Char) : Nat := matchedBy (cs.length + 1) cs ds

/-- The likeness of two words as a fraction. -/
def ratio (a b : String) : Nat × Nat := (2 * matched a.toList b.toList, a.length + b.length)

/-- Are two words alike?  Their likeness is at least three fifths. -/
def alike (a b : String) : Bool := 3 * (ratio a b).2 ≤ 5 * (ratio a b).1

/-- Is the first word at least as like to the third as the second is?  Equally like ones go by their
letters. -/
def likerThan (word a b : String) : Bool :=
  let p := ratio a word
  let q := ratio b word
  q.1 * p.2 < p.1 * q.2 || (q.1 * p.2 == p.1 * q.2 && decide (¬ a < b))

/-- Of some words those most like another, the likest first, at most `count` of them. -/
def closest (count : Nat) (word : String) (words : List String) : List String :=
  ((words.filter fun w => alike w word).mergeSort (likerThan word)).take count

end Likeness
end ScopeIndex
