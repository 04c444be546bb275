/-!
# Pieces of a path pattern

A compiled pattern is a list of pieces that are matched one after the other from the start of a path.
Every piece can leave several rests of the path, and a list of pieces matches when some choice of rests
takes it to its end.  What is left of the path then does not matter: the last piece of a pattern sees to
it that a name is not cut.

## Main definitions

* `Bracket` — a set of characters given by intervals.
* `Piece`, `Piece.rests` — what a pattern is made of, and what each piece can leave of a path.
* `Piece.matchesStart` — does a list of pieces match the start of a path?

## References

The syntax `gitwildmatch` of pathspec: the expressions that it compiles patterns to, and `match_file`.
-/

namespace ScopeIndex

/-- An interval of characters. -/
structure CharRange where
  /-- The first character. -/
  low : Char
  /-- The last character. -/
  high : Char
  deriving DecidableEq, Repr

/-- Is a character in the interval? -/
def CharRange.has (r : CharRange) (c : Char) : Bool := r.low ≤ c && c ≤ r.high

/-- A set of characters: those of some intervals, or all others. -/
structure Bracket where
  /-- Does the set hold the characters outside the intervals? -/
  negated : Bool
  /-- The intervals. -/
  ranges : List CharRange
  deriving DecidableEq, Repr

namespace Bracket

/-- Is a character in the set? -/
def has (b : Bracket) (c : Char) : Bool := b.ranges.any (·.has c) != b.negated

/-- Does no interval end before it begins? -/
def isSound (b : Bracket) : Bool := b.ranges.all fun r => r.low ≤ r.high

/-- The intervals that a text between brackets spells: `a-z` is one, any other character stands for
itself, and so does a hyphen at an end. -/
def rangesOf : List Char → List CharRange
  | [] => []
  | a :: '-' :: b :: cs => ⟨a, b⟩ :: rangesOf cs
  | a :: cs => ⟨a, a⟩ :: rangesOf cs

end Bracket

/-- A piece of a pattern. -/
inductive Piece where
  /-- This character. -/
  | char (c : Char)
  /-- One character of a name. -/
  | one
  /-- Any number of characters of a name. -/
  | run
  /-- At least one character of a name. -/
  | fill
  /-- One character of a set. -/
  | bracket (b : Bracket)
  /-- Nothing, or directories with the slash behind them. -/
  | above
  /-- Nothing, or a slash with something behind it. -/
  | between
  /-- A slash, or the end of the path. -/
  | close
  deriving DecidableEq, Repr

namespace Piece

/-- What is left of a path after any number of characters other than a slash. -/
def nameRests : List Char → List (List Char)
  | [] => [[]]
  | c :: cs => (c :: cs) :: if c = '/' then [] else nameRests cs

/-- What is left of a path after at least one character, none of them a line feed. -/
def lineRests : List Char → List (List Char)
  | [] => []
  | c :: cs => if c = '\n' then [] else cs :: lineRests cs

/-- A path without the slash it starts with. -/
def afterSlash? : List Char → Option (List Char)
  | '/' :: cs => some cs
  | _ => none

/-- What is left of a path after a first character that passes a test. -/
def headRests (test : Char → Bool) : List Char → List (List Char)
  | [] => []
  | c :: cs => if test c then [cs] else []

/-- What a piece can leave of a path.  The end of the path may also stand before a last line feed. -/
def rests : Piece → List Char → List (List Char)
  | char d, cs => headRests (· = d) cs
  | one, cs => headRests (· ≠ '/') cs
  | run, cs => nameRests cs
  | fill, cs => (headRests (· ≠ '/') cs).flatMap nameRests
  | bracket b, cs => headRests b.has cs
  | above, cs => cs :: (lineRests cs).filterMap afterSlash?
  | between, cs => cs :: ((afterSlash? cs).map lineRests).getD []
  | close, cs => if cs = [] ∨ cs = ['\n'] then [cs] else (afterSlash? cs).toList

/-- Does a list of pieces match the start of a path? -/
def matchesStart : List Piece → List Char → Bool
  | [], _ => true
  | p :: ps, cs => (p.rests cs).any fun rest => matchesStart ps rest

@[simp] theorem matchesStart_nil (cs : List Char) : matchesStart [] cs = true := rfl

@[simp] theorem matchesStart_cons (p : Piece) (ps : List Piece) (cs : List Char) :
    matchesStart (p :: ps) cs = (p.rests cs).any fun rest => matchesStart ps rest := rfl

/-- A piece that is a character takes that character and no other. -/
theorem matchesStart_char_cons (d c : Char) (ps : List Piece) (cs : List Char) :
    matchesStart (.char d :: ps) (c :: cs) = (c == d && matchesStart ps cs) := by
  by_cases h : c = d
  · simp [rests, headRests, h]
  · simp [rests, headRests, h]

/-- Characters match themselves at the start of a path, and the other pieces match the rest. -/
theorem matchesStart_map_char (s : List Char) (ps : List Piece) (cs : List Char) :
    matchesStart (s.map .char ++ ps) (s ++ cs) = matchesStart ps cs := by
  induction s with
  | nil => rfl
  | cons c s ih =>
      rw [List.map_cons, List.cons_append, List.cons_append, matchesStart_char_cons, ih]
      simp

/-- Is every set in the piece well-formed? -/
def isSound : Piece → Bool
  | bracket b => b.isSound
  | _ => true

end Piece
end ScopeIndex
