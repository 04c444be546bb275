import ScopeIndex.Json.Value
import ScopeIndex.Number.Shortest

/-!
# Writing JSON

The written form of a JSON value, on one line or indented.  Only the characters from the blank to the
tilde are written as they are; all others are written as escapes of four hexadecimal digits, in two
halves above the first 65536 code points.

## Main definitions

* `Json.compact` — the value on one line, with a blank behind each comma and colon.
* `Json.pretty` — the value with one item per line, indented by a number of blanks per level.
-/

namespace ScopeIndex
namespace Json

/-! ### Texts -/

/-- Four hexadecimal digits of a number below 65536. -/
def hex4 (n : Nat) : List Char :=
  (List.range 4).map fun i => Nat.digitChar (n >>> (4 * (3 - i)) % 16)

/-- The escape of one 16-bit unit. -/
def unitEscape (n : Nat) : List Char := '\\' :: 'u' :: hex4 n

/-- A character by its code point, in two units when it lies above the first 65536. -/
def codeEscape (n : Nat) : List Char :=
  if n < 0x10000 then unitEscape n
  else unitEscape (0xD800 + (n - 0x10000) / 0x400) ++ unitEscape (0xDC00 + (n - 0x10000) % 0x400)

/-- One character of a text. -/
def writeChar (c : Char) : List Char :=
  if c = '\x22' then ['\\', '\x22']
  else if c = '\\' then ['\\', '\\']
  else if c = '\n' then ['\\', 'n']
  else if c = '\r' then ['\\', 'r']
  else if c = '\t' then ['\\', 't']
  else if c.toNat = 0x08 then ['\\', 'b']
  else if c.toNat = 0x0C then ['\\', 'f']
  else if 0x20 ≤ c.toNat ∧ c.toNat ≤ 0x7E then [c]
  else codeEscape c.toNat

/-- A text between quotes. -/
def writeText (s : String) : List Char := '\x22' :: s.toList.flatMap writeChar ++ ['\x22']

/-- A torn text between quotes, every code point as an escape. -/
def writePoints (points : List Nat) : List Char := '\x22' :: points.flatMap codeEscape ++ ['\x22']

/-! ### Numbers -/

/-- The decimal digits of an integer. -/
def writeInt (n : Int) : List Char :=
  if n < 0 then '-' :: Nat.toDigits 10 n.natAbs else Nat.toDigits 10 n.natAbs

/-- A number of double precision. -/
def writeReal : Double → List Char
  | .infinite false => "Infinity".toList
  | .infinite true => "-Infinity".toList
  | .nan => "NaN".toList
  | x => x.text.toList

/-! ### Layout -/

/-- How items are set apart: on one line, or on lines of their own. -/
inductive Layout where
  /-- All on one line. -/
  | line
  /-- One item per line, indented by `width` blanks per level. -/
  | indented (width : Nat)
  deriving DecidableEq, Repr

/-- What stands between a bracket and an item at a level. -/
def Layout.gap : Layout → Nat → List Char
  | .line, _ => []
  | .indented width, level => '\n' :: List.replicate (width * level) ' '

/-- What stands between two items at a level. -/
def Layout.between : Layout → Nat → List Char
  | .line, _ => [',', ' ']
  | .indented width, level => ',' :: Layout.gap (.indented width) level

/-- Items between brackets; no items leave nothing between them. -/
def Layout.enclose (l : Layout) (level : Nat) (opening closing : Char) : List (List Char) → List Char
  | [] => [opening, closing]
  | item :: items =>
      opening :: l.gap (level + 1) ++ item ++ items.flatMap (l.between (level + 1) ++ ·)
        ++ l.gap level ++ [closing]

mutual

/-- The written form of a value at a level. -/
def write (l : Layout) (level : Nat) : Json → List Char
  | .null => "null".toList
  | .bool true => "true".toList
  | .bool false => "false".toList
  | .int n => writeInt n
  | .real x => writeReal x
  | .text s => writeText s
  | .torn points => writePoints points
  | .moment s => writeText s
  | .list vs => l.enclose level '[' ']' (writeItems l (level + 1) vs)
  | .object ms => l.enclose level '\x7b' '\x7d' (writeMembers l (level + 1) ms)
  | .misnamed v => write l level v

/-- The written forms of the items of an array. -/
def writeItems (l : Layout) (level : Nat) : List Json → List (List Char)
  | [] => []
  | v :: vs => write l level v :: writeItems l level vs

/-- The written forms of the members of an object. -/
def writeMembers (l : Layout) (level : Nat) : List (String × Json) → List (List Char)
  | [] => []
  | (k, v) :: ms => (writeText k ++ ':' :: ' ' :: write l level v) :: writeMembers l level ms

end

/-- The value on one line. -/
def compact (v : Json) : String := String.ofList (write .line 0 v)

/-- The value with one item per line. -/
def pretty (width : Nat) (v : Json) : String := String.ofList (write (.indented width) 0 v)

end Json
end ScopeIndex
