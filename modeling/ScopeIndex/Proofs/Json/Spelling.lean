import Mathlib
import ScopeIndex.Json.Reader

/-!
# The grammar of JSON

Which texts are JSON, and which value each of them spells, said without reading or writing
them.  A text between quotes is a row of units, each a character as it is, a backslash with
one character, or a backslash with four hexadecimal digits; two halves of a character that
stand side by side are one.  A number is a whole part with an optional sign, fraction and
exponent.  Blanks may stand around every value and every name of a member.

Values, arrays and objects are spelled by means of one another.  To have one induction for
all of them, `Spells` relates a stretch of text to a *part*, which is a value, a value with
blanks around it, or a row of items or members.

## Main definitions

* `Json.SpellsUnits`, `Json.SpellsNumber` — the grammar of texts and of numbers.
* `Json.Part`, `Json.Spells` — the grammar of values.
* `Json.IsTextOf` — a whole text spells a value.
-/

namespace ScopeIndex
namespace Json

/-! ### Texts -/

/-- The digit has the value, be it a small letter or a capital. -/
def IsHexDigit (n : Nat) (c : Char) : Prop :=
  "0123456789abcdef".toList[n]? = some c ∨ "0123456789ABCDEF".toList[n]? = some c

/-- The characters that stand for a code point behind a backslash. -/
def shortForms : List (Nat × Char) :=
  [(0x22, '\x22'), (0x5C, '\\'), (0x2F, '/'), (0x08, 'b'), (0x0C, 'f'), (0x0A, 'n'), (0x0D, 'r'),
    (0x09, 't')]

/-- A stretch of a text between quotes that stands for one unit of 16 bits, or for one
character. -/
inductive SpellsUnit : Nat → List Char → Prop
  | plain {c : Char} : 0x20 ≤ c.toNat → c ≠ '\x22' → c ≠ '\\' → SpellsUnit c.toNat [c]
  | short {n : Nat} {c : Char} : (n, c) ∈ shortForms → SpellsUnit n ['\\', c]
  | coded {i j k l : Nat} {a b c d : Char} :
      IsHexDigit i a → IsHexDigit j b → IsHexDigit k c → IsHexDigit l d →
      SpellsUnit (((i * 16 + j) * 16 + k) * 16 + l) ['\\', 'u', a, b, c, d]

/-- What stands between quotes. -/
inductive SpellsUnits : List Nat → List Char → Prop
  | nil : SpellsUnits [] []
  | cons {n : Nat} {ns : List Nat} {u cs : List Char} :
      SpellsUnit n u → SpellsUnits ns cs → SpellsUnits (n :: ns) (u ++ cs)

/-! ### Numbers -/

def IsDigits (ds : List Char) : Prop := ds ≠ [] ∧ ∀ c ∈ ds, c.isDigit = true

/-- The whole part of a number does not start with a zero unless it is one. -/
def IsWhole (ds : List Char) : Prop := ds = ['0'] ∨ IsDigits ds ∧ ds.head? ≠ some '0'

inductive SpellsFraction : List Char → List Char → Prop
  | absent : SpellsFraction [] []
  | present {ds : List Char} : IsDigits ds → SpellsFraction ds ('.' :: ds)

/-- The signs that an exponent may have. -/
def exponentSigns : List (Bool × List Char) := [(false, []), (false, ['+']), (true, ['-'])]

inductive SpellsExponent : Option Int → List Char → Prop
  | absent : SpellsExponent none []
  | present {mark : Char} {negative : Bool} {sign ds : List Char} :
      mark = 'e' ∨ mark = 'E' → (negative, sign) ∈ exponentSigns → IsDigits ds →
      SpellsExponent (some (Double.signed negative (ofDigits ds))) (mark :: (sign ++ ds))

/-- The value of a number: an integer, unless it has a fraction or an exponent. -/
def numberValue (negative : Bool) (whole fraction : List Char) (exponent : Option Int) : Json :=
  if fraction.isEmpty && exponent.isNone then .int (Double.signed negative (ofDigits whole))
  else .real (.ofDecimal negative (ofDigits (whole ++ fraction))
    (exponent.getD 0 - fraction.length))

def minus (negative : Bool) : List Char := if negative then ['-'] else []

inductive SpellsNumber : Json → List Char → Prop
  | mk (negative : Bool) {whole fraction fs es : List Char} {exponent : Option Int} :
      IsWhole whole → SpellsFraction fraction fs → SpellsExponent exponent es →
      SpellsNumber (numberValue negative whole fraction exponent)
        (minus negative ++ (whole ++ (fs ++ es)))

/-! ### Values -/

abbrev IsBlank (c : Char) : Prop := c = ' ' ∨ c = '\t' ∨ c = '\n' ∨ c = '\r'

/-- Blanks that may stand between the signs of a text. -/
def IsGap (cs : List Char) : Prop := ∀ c ∈ cs, IsBlank c

/-- What a stretch of a text can stand for: a value, a value with blanks around it, a row of
those, a member of an object with blanks around it, a row of those.  Rows are not empty. -/
inductive Part where
  | value (v : Json)
  | item (v : Json)
  | items (vs : List Json)
  | member (m : String × Json)
  | members (ms : List (String × Json))

/-- **The grammar of JSON.** -/
inductive Spells : Part → List Char → Prop
  | null : Spells (.value .null) "null".toList
  | bool (b : Bool) : Spells (.value (.bool b)) (if b then "true".toList else "false".toList)
  | number {v : Json} {cs : List Char} : SpellsNumber v cs → Spells (.value v) cs
  | text {ns : List Nat} {cs : List Char} :
      SpellsUnits ns cs → Spells (.value (ofPoints (Utf16.join ns))) ('\x22' :: (cs ++ ['\x22']))
  | emptyList {gap : List Char} : IsGap gap → Spells (.value (.list [])) ('[' :: (gap ++ [']']))
  | list {vs : List Json} {cs : List Char} :
      Spells (.items vs) cs → Spells (.value (.list vs)) ('[' :: (cs ++ [']']))
  | emptyObject {gap : List Char} :
      IsGap gap → Spells (.value (.object [])) ('\x7b' :: (gap ++ ['\x7d']))
  | object {ms : List (String × Json)} {cs : List Char} : Spells (.members ms) cs →
      Spells (.value (.object (Members.settle ms))) ('\x7b' :: (cs ++ ['\x7d']))
  | item {v : Json} {before cs after : List Char} : IsGap before → Spells (.value v) cs →
      IsGap after → Spells (.item v) (before ++ (cs ++ after))
  | lastItem {v : Json} {cs : List Char} : Spells (.item v) cs → Spells (.items [v]) cs
  | moreItems {v : Json} {vs : List Json} {cs ds : List Char} :
      Spells (.item v) cs → Spells (.items vs) ds → Spells (.items (v :: vs)) (cs ++ ',' :: ds)
  | member {ns : List Nat} {v : Json} {before ks after cs : List Char} :
      IsGap before → SpellsUnits ns ks → IsGap after → Spells (.item v) cs →
      Spells (.member (Json.member (Utf16.join ns) v))
        (before ++ '\x22' :: (ks ++ '\x22' :: (after ++ ':' :: cs)))
  | lastMember {m : String × Json} {cs : List Char} :
      Spells (.member m) cs → Spells (.members [m]) cs
  | moreMembers {m : String × Json} {ms : List (String × Json)} {cs ds : List Char} :
      Spells (.member m) cs → Spells (.members ms) ds →
      Spells (.members (m :: ms)) (cs ++ ',' :: ds)

/-- The text is JSON and spells the value. -/
def IsTextOf (v : Json) (s : String) : Prop := Spells (.item v) s.toList

end Json
end ScopeIndex
