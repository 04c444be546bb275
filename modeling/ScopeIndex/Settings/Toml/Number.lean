import ScopeIndex.Json.Reader

/-!
# Numbers in files with tables

Integers are decimal, or hexadecimal, octal or binary behind `0x`, `0o` or `0b`.  Single bars may stand
between digits.  A fraction or an exponent makes a number one of double precision; the infinities and what
is no number have words.  A decimal integer may have a limited number of digits.

## Main definitions

* `Toml.readNumber` — a number at the front of the text.

## References

The class `TomlConfigSettingsSource`, by which `load_settings` of jsindex reads a settings file: its numbers.
-/

namespace ScopeIndex
namespace Toml

/-- The limits of the runtime for files with tables.  The calls from the start of the command to the reader
are taken to be 22; an array takes `arrayLevels` more and a table `tableLevels`. -/
def limits : ReadLimits := .ofRuntime 22

/-- The calls that an array takes: one for the value and one for its items. -/
def arrayLevels : Nat := 2

/-- The calls that a table takes: one for the value, one for its members and one for a member. -/
def tableLevels : Nat := 3

/-- Digits with single bars between them: the digits, and what follows them. -/
def spanBarred (isDigit : Char → Bool) : List Char → List Char × List Char
  | [] => ([], [])
  | '_' :: d :: cs =>
      if isDigit d then
        let (ds, r) := spanBarred isDigit cs
        (d :: ds, r)
      else ([], '_' :: d :: cs)
  | c :: cs =>
      if isDigit c then
        let (ds, r) := spanBarred isDigit cs
        (c :: ds, r)
      else ([], c :: cs)

/-- Digits with single bars between them, of which there is at least one. -/
def digits? (isDigit : Char → Bool) (cs : List Char) : Option (List Char × List Char) :=
  if cs.head?.any isDigit then some (spanBarred isDigit cs) else none

/-- Is a character a digit of a base? -/
def isDigitOf (base : Nat) (c : Char) : Bool := (Json.hexValue? c).any (· < base)

/-- The number that digits spell in a base. -/
def numberOf (base : Nat) (ds : List Char) : Nat :=
  ds.foldl (fun n d => n * base + (Json.hexValue? d).getD 0) 0

/-- The base of a number behind a zero and a letter. -/
def base? (c : Char) : Option Nat :=
  match c with
  | 'x' => some 16
  | 'o' => some 8
  | 'b' => some 2
  | _ => none

/-- An integer in another base than ten. -/
def readBased? : List Char → Option (Json × List Char)
  | '0' :: c :: cs => do
      let base ← base? c
      let (ds, r) ← digits? (isDigitOf base) cs
      return (.int (numberOf base ds), r)
  | _ => none

/-- A sign at the front of the text: is it a minus, and what follows it? -/
def splitSign : List Char → Bool × List Char
  | '-' :: cs => (true, cs)
  | '+' :: cs => (false, cs)
  | cs => (false, cs)

/-- The digits of the whole part of a decimal: a lone zero, or digits that start with another. -/
def whole? : List Char → Option (List Char × List Char)
  | '0' :: cs => some (['0'], cs)
  | cs => digits? Char.isDigit cs

/-- The digits of a fraction, if there is one. -/
def readFraction : List Char → Option (List Char) × List Char
  | '.' :: cs =>
      match digits? Char.isDigit cs with
      | some (ds, r) => (some ds, r)
      | none => (none, '.' :: cs)
  | cs => (none, cs)

/-- An exponent, if there is one. -/
def readExponent : List Char → Option Int × List Char
  | [] => (none, [])
  | c :: cs =>
      if c = 'e' ∨ c = 'E' then
        let (negative, body) := splitSign cs
        match digits? Char.isDigit body with
        | some (ds, r) => (some (Double.signed negative (numberOf 10 ds)), r)
        | none => (none, c :: cs)
      else (none, c :: cs)

/-- A decimal number. -/
def readDecimal? (cs : List Char) : Option (Except ReadFlaw Json × List Char) := do
  let (negative, body) := splitSign cs
  let (whole, r) ← whole? body
  let (fraction, r) := readFraction r
  let (exponent, r) := readExponent r
  match fraction, exponent with
  | none, none =>
      return ((limits.checkDigits whole.length (Double.signed negative (numberOf 10 whole))).map .int, r)
  | _, _ =>
      let places := fraction.getD []
      return (.ok (.real (.ofDecimal negative (numberOf 10 (whole ++ places))
        (exponent.getD 0 - places.length))), r)

/-- The words for numbers. -/
def numberWords : List (String × Double) :=
  [("inf", .infinite false), ("+inf", .infinite false), ("-inf", .infinite true), ("nan", .nan),
    ("+nan", .nan), ("-nan", .nan)]

/-- A number that is a word. -/
def readNumberWord? (cs : List Char) : Option (Json × List Char) :=
  numberWords.findSome? fun (word, x) => (Json.stripWord? word.toList cs).map fun r => (.real x, r)

/-- A number at the front of the text. -/
def readNumber (cs : List Char) : Except ReadFlaw (Json × List Char) :=
  match readBased? cs with
  | some found => .ok found
  | none =>
      match readDecimal? cs with
      | some (v, r) => v.map fun v => (v, r)
      | none => ReadFlaw.orMalformed (readNumberWord? cs)

end Toml
end ScopeIndex
