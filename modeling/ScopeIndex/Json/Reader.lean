import ScopeIndex.Json.Value
import ScopeIndex.Text.Utf16

/-!
# Reading JSON

`Json.read?` accepts a whole text that is one JSON value.  Strings may not hold bare control characters.
Of members with the same key the last one counts.  A character above the first 65536 code points may be
written in two halves; a text in which a half lacks its other one is torn.  The infinities and what is no
number have words of their own.

Who fears for time or memory may limit the digits of integers and the nesting of arrays and objects:
`Json.read` with limits refuses what goes beyond them as soon as it meets it.

## Main definitions

* `ReadFlaw` — why a text cannot be read.
* `ReadLimits` — how long integers and how deep values may be.
* `Json.readText`, `Json.readNumber` — a text or a number at the front of the input.
* `Json.readValue` — any value at the front of the input.
* `Json.read`, `Json.read?` — a whole input.
-/

namespace ScopeIndex

/-- Why a text cannot be read. -/
inductive ReadFlaw where
  /-- The text is malformed. -/
  | malformed
  /-- An integer has more digits than allowed. -/
  | tooManyDigits
  /-- Arrays and objects are nested deeper than allowed. -/
  | tooDeep
  deriving DecidableEq, Repr

/-- Something that was found, or a malformed text. -/
def ReadFlaw.orMalformed {α : Type} : Option α → Except ReadFlaw α
  | some a => .ok a
  | none => .error .malformed

/-- How long integers and how deep values may be. -/
structure ReadLimits where
  /-- The most digits of an integer. -/
  digits : Option Nat := none
  /-- The most levels of arrays and objects. -/
  depth : Option Nat := none
  deriving DecidableEq, Repr

namespace ReadLimits

/-- The limits that the runtime of jsindex sets to a reader.  It makes an integer of at most 4300 digits.
Calls nest at most 1000 deep in it; some are open when the reader starts, and every level of a value takes
calls of its own. -/
def ofRuntime (openCalls : Nat) : ReadLimits := { digits := some 4300, depth := some (1000 - openCalls) }

/-- An integer of some digits, unless there are more of them than allowed. -/
def checkDigits (limits : ReadLimits) (count : Nat) (n : Int) : Except ReadFlaw Int :=
  if limits.digits.any (· < count) then .error .tooManyDigits else .ok n

/-- Nothing is wrong with one more level below some levels, unless there are too many of them. -/
def checkDepth (limits : ReadLimits) (level : Nat) : Except ReadFlaw Unit :=
  if limits.depth.any (· ≤ level) then .error .tooDeep else .ok ()

end ReadLimits

namespace Json

/-- The rest of an input behind its blanks. -/
def skipBlank (cs : List Char) : List Char :=
  cs.dropWhile fun c => c = ' ' || c = '\t' || c = '\n' || c = '\r'

/-! ### Texts -/

/-- The value of a hexadecimal digit. -/
def hexValue? (c : Char) : Option Nat :=
  if '0' ≤ c ∧ c ≤ '9' then some (c.toNat - '0'.toNat)
  else if 'a' ≤ c ∧ c ≤ 'f' then some (c.toNat - 'a'.toNat + 10)
  else if 'A' ≤ c ∧ c ≤ 'F' then some (c.toNat - 'A'.toNat + 10)
  else none

/-- The value of four hexadecimal digits. -/
def hexValue4? (a b c d : Char) : Option Nat := do
  return (((← hexValue? a) * 16 + (← hexValue? b)) * 16 + (← hexValue? c)) * 16 + (← hexValue? d)

/-- The character of a one-letter escape. -/
def shortEscape? (c : Char) : Option Char :=
  match c with
  | 'n' => some '\n'
  | 'r' => some '\r'
  | 't' => some '\t'
  | 'b' => some (Char.ofNat 0x08)
  | 'f' => some (Char.ofNat 0x0C)
  | '\\' => some '\\'
  | '/' => some '/'
  | '\x22' => some '\x22'
  | _ => none

/-- The code points of a text up to its closing quote, halves of characters apart, and what follows the
quote. -/
def readUnits : List Char → Option (List Nat × List Char)
  | [] => none
  | '\\' :: 'u' :: a :: b :: c :: d :: cs => do
      let n ← hexValue4? a b c d
      let (us, rest) ← readUnits cs
      return (n :: us, rest)
  | '\\' :: c :: cs => do
      let e ← shortEscape? c
      let (us, rest) ← readUnits cs
      return (e.toNat :: us, rest)
  | c :: cs =>
      if c = '\x22' then some ([], cs)
      else if c.toNat < 0x20 ∨ c = '\\' then none
      else do
        let (us, rest) ← readUnits cs
        return (c.toNat :: us, rest)

/-- The text of code points as a value. -/
def ofPoints (points : List Nat) : Json :=
  if Utf16.isTorn points then .torn points else .text (String.ofList (Utf16.chars points))

/-- A member of an object, its name given by code points. -/
def member (points : List Nat) (v : Json) : String × Json :=
  (String.ofList (Utf16.chars points), if Utf16.isTorn points then .misnamed v else v)

/-- The code points of a text behind its opening quote. -/
def readText (cs : List Char) : Option (List Nat × List Char) :=
  (readUnits cs).map fun (us, rest) => (Utf16.join us, rest)

/-! ### Numbers -/

/-- The number of decimal digits. -/
def ofDigits (ds : List Char) : Nat := ds.foldl (fun n d => n * 10 + (d.toNat - '0'.toNat)) 0

/-- The digits at the front of an input, and what follows them. -/
def spanDigits (cs : List Char) : List Char × List Char :=
  (cs.takeWhile Char.isDigit, cs.dropWhile Char.isDigit)

/-- The digits of a fraction, if the input starts with a point and a digit. -/
def readFraction : List Char → List Char × List Char
  | '.' :: cs =>
      let (ds, rest) := spanDigits cs
      if ds.isEmpty then ([], '.' :: cs) else (ds, rest)
  | cs => ([], cs)

/-- The digits of an exponent, its letter taken: an optional sign and at least one digit. -/
def readExponentDigits : List Char → Option (Int × List Char)
  | cs =>
      let (sign, body) : Int × List Char :=
        match cs with
        | '-' :: r => (-1, r)
        | '+' :: r => (1, r)
        | r => (1, r)
      let (ds, rest) := spanDigits body
      if ds.isEmpty then none else some (sign * ofDigits ds, rest)

/-- An exponent, if the input starts with one. -/
def readExponent : List Char → Option Int × List Char
  | 'e' :: cs =>
      match readExponentDigits cs with
      | some (e, rest) => (some e, rest)
      | none => (none, 'e' :: cs)
  | 'E' :: cs =>
      match readExponentDigits cs with
      | some (e, rest) => (some e, rest)
      | none => (none, 'E' :: cs)
  | cs => (none, cs)

/-- The whole part of a number without its sign: a lone zero, or digits that start with another. -/
def readWhole : List Char → Option (List Char × List Char)
  | '0' :: cs => some (['0'], cs)
  | cs =>
      let (ds, rest) := spanDigits cs
      if ds.isEmpty then none else some (ds, rest)

/-- A number at the front of the input.  A fraction or an exponent makes it one of double precision. -/
def readNumber (limits : ReadLimits) (cs : List Char) : Except ReadFlaw (Json × List Char) := do
  let (negative, body) : Bool × List Char :=
    match cs with
    | '-' :: r => (true, r)
    | r => (false, r)
  let (whole, rest) ← ReadFlaw.orMalformed (readWhole body)
  let (fraction, rest) := readFraction rest
  let (exponent, rest) := readExponent rest
  if fraction.isEmpty && exponent.isNone then
    let n ← limits.checkDigits whole.length (Double.signed negative (ofDigits whole))
    return (.int n, rest)
  else
    return (.real (.ofDecimal negative (ofDigits (whole ++ fraction))
      (exponent.getD 0 - fraction.length)), rest)

/-! ### Values -/

/-- The rest of the input behind a word it starts with. -/
def stripWord? (word cs : List Char) : Option (List Char) :=
  if word.isPrefixOf cs then some (cs.drop word.length) else none

/-- The values that are written as one word. -/
def words : List (String × Json) :=
  [("null", .null), ("true", .bool true), ("false", .bool false), ("NaN", .real .nan),
    ("Infinity", .real (.infinite false)), ("-Infinity", .real (.infinite true))]

/-- A value of one word. -/
def readWord (cs : List Char) : Option (Json × List Char) :=
  words.findSome? fun (word, v) => (stripWord? word.toList cs).map fun r => (v, r)

mutual

/-- A value at the front of the input, below some levels of others and blanks before it skipped.  The last
number bounds the nesting and the number of items. -/
def readValue (limits : ReadLimits) (level : Nat) : Nat → List Char → Except ReadFlaw (Json × List Char)
  | 0, _ => .error .malformed
  | fuel + 1, cs =>
      match skipBlank cs with
      | '\x22' :: r => do
          let (points, r) ← ReadFlaw.orMalformed (readText r)
          return (ofPoints points, r)
      | '[' :: r => do
          limits.checkDepth level
          match skipBlank r with
          | ']' :: r => return (.list [], r)
          | r =>
              let (vs, r) ← readItems limits (level + 1) fuel r
              return (.list vs, r)
      | '\x7b' :: r => do
          limits.checkDepth level
          match skipBlank r with
          | '\x7d' :: r => return (.object [], r)
          | r =>
              let (ms, r) ← readMembers limits (level + 1) fuel r
              return (.object (Members.settle ms), r)
      | r =>
          match readWord r with
          | some found => .ok found
          | none => readNumber limits r

/-- The items of an array up to its closing bracket; there is at least one. -/
def readItems (limits : ReadLimits) (level : Nat) :
    Nat → List Char → Except ReadFlaw (List Json × List Char)
  | 0, _ => .error .malformed
  | fuel + 1, cs => do
      let (v, r) ← readValue limits level fuel cs
      match skipBlank r with
      | ']' :: r => return ([v], r)
      | ',' :: r =>
          let (vs, r) ← readItems limits level fuel r
          return (v :: vs, r)
      | _ => .error .malformed

/-- The members of an object up to its closing brace; there is at least one. -/
def readMembers (limits : ReadLimits) (level : Nat) :
    Nat → List Char → Except ReadFlaw (List (String × Json) × List Char)
  | 0, _ => .error .malformed
  | fuel + 1, cs => do
      match skipBlank cs with
      | '\x22' :: r =>
          let (points, r) ← ReadFlaw.orMalformed (readText r)
          match skipBlank r with
          | ':' :: r =>
              let (v, r) ← readValue limits level fuel r
              match skipBlank r with
              | '\x7d' :: r => return ([member points v], r)
              | ',' :: r =>
                  let (ms, r) ← readMembers limits level fuel r
                  return (member points v :: ms, r)
              | _ => .error .malformed
          | _ => .error .malformed
      | _ => .error .malformed

end

theorem readValue_zero (limits : ReadLimits) (level : Nat) (cs : List Char) :
    readValue limits level 0 cs = .error .malformed := by
  rw [readValue]

theorem readItems_zero (limits : ReadLimits) (level : Nat) (cs : List Char) :
    readItems limits level 0 cs = .error .malformed := by
  rw [readItems]

theorem readMembers_zero (limits : ReadLimits) (level : Nat) (cs : List Char) :
    readMembers limits level 0 cs = .error .malformed := by
  rw [readMembers]

/-- A whole input as one value.  Each step of the reader takes at least half a character on average,
so twice the length bounds them. -/
def readChars (limits : ReadLimits) (cs : List Char) : Except ReadFlaw Json := do
  let (v, rest) ← readValue limits 0 (2 * cs.length + 2) cs
  if (skipBlank rest).isEmpty then return v else .error .malformed

/-- A whole text as one value, within limits. -/
def read (limits : ReadLimits) (s : String) : Except ReadFlaw Json := readChars limits s.toList

/-- A whole text as one value. -/
def read? (s : String) : Option Json := (read {} s).toOption

end Json
end ScopeIndex
