/-!
# Control sequences

Some sequences of characters do not show on a terminal but steer it: an escape character and a bracket,
then parameters, then intermediate characters, then one final character.

## Main definitions

* `ControlSequence` — a kind of sequences, by the characters at each of these places.
* `ControlSequence.strip` — a text without the sequences of a kind.
-/

namespace ScopeIndex

/-- A kind of sequences. -/
structure ControlSequence where
  /-- The characters that may be parameters. -/
  isParameter : Char → Bool
  /-- The characters that may stand between the parameters and the end. -/
  isIntermediate : Char → Bool
  /-- The characters that end a sequence. -/
  isFinal : Char → Bool

namespace ControlSequence

/-- Every sequence. -/
def any : ControlSequence where
  isParameter c := 0x30 ≤ c.toNat && c.toNat ≤ 0x3F
  isIntermediate c := 0x20 ≤ c.toNat && c.toNat ≤ 0x2F
  isFinal c := 0x40 ≤ c.toNat && c.toNat ≤ 0x7E

/-- The sequences that choose colours and other looks of letters. -/
def look : ControlSequence where
  isParameter c := c.isDigit || c = ';'
  isIntermediate _ := false
  isFinal c := c = 'm'

/-- The text behind a sequence, its escape character and its bracket taken. -/
def rest? (kind : ControlSequence) (cs : List Char) : Option (List Char) :=
  match (cs.dropWhile kind.isParameter).dropWhile kind.isIntermediate with
  | c :: rest => if kind.isFinal c then some rest else none
  | [] => none

/-- What follows a sequence is shorter than the text. -/
theorem length_lt_of_rest?_eq_some {kind : ControlSequence} {cs rest : List Char}
    (h : kind.rest? cs = some rest) : rest.length < cs.length := by
  unfold rest? at h
  split at h
  · next c r hr =>
      have hle : (c :: r).length ≤ cs.length := by
        rw [← hr]
        exact Nat.le_trans (List.dropWhile_suffix _).length_le (List.dropWhile_suffix _).length_le
      split at h
      · cases h
        exact Nat.lt_of_succ_le hle
      · cases h
  · cases h

/-- A text without the sequences of a kind, taken out from the front on. -/
def strip (kind : ControlSequence) : List Char → List Char
  | [] => []
  | '\x1b' :: '[' :: body =>
      match h : kind.rest? body with
      | some rest =>
          have := length_lt_of_rest?_eq_some h
          strip kind rest
      | none => '\x1b' :: strip kind ('[' :: body)
  | c :: cs => c :: strip kind cs
termination_by cs => cs.length
decreasing_by
  · simp only [List.length_cons]
    omega
  · simp
  · simp

end ControlSequence
end ScopeIndex
