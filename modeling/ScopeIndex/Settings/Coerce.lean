import ScopeIndex.Json.Value
import ScopeIndex.Text.Lines
import ScopeIndex.Text.LowerCase

/-!
# Values of settings

How a value from a file, a variable or a caller becomes a truth value, an integer, a text or a collection
of texts, and what is wrong with a value that does not.

## Main definitions

* `Flaw` — what can be wrong with a value.
* `Coerce.toBool`, `Coerce.toInt`, `Coerce.toText`, `Coerce.toTexts` — the value as what it should be.

## References

The fields of the models of settings in jsindex, as `pydantic` validates them.
-/

namespace ScopeIndex

/-- What is wrong with a value. -/
inductive Flaw where
  /-- A value that could be a truth value is none. -/
  | boolParsing
  /-- A value that cannot be a truth value. -/
  | boolType
  /-- A text that is no integer. -/
  | intParsing
  /-- A number with a fraction in place of an integer. -/
  | intFromFloat
  /-- An infinity, or what is no number, in place of an integer. -/
  | finiteNumber
  /-- An integer that is too long, or a number of double precision that is too large. -/
  | intSize
  /-- A value that cannot be an integer. -/
  | intType
  /-- A number below its least value. -/
  | belowMinimum
  /-- A value that is no text. -/
  | stringType
  /-- A text with half of a character in it. -/
  | tornText
  /-- A value that is no list. -/
  | listType
  /-- A value that is no set. -/
  | setType
  /-- A value that is no group of settings. -/
  | groupType
  /-- A name that is no setting. -/
  | unknownName
  deriving DecidableEq, Repr

/-- The word for a flaw. -/
def Flaw.code : Flaw → String
  | boolParsing => "bool_parsing"
  | boolType => "bool_type"
  | intParsing => "int_parsing"
  | intFromFloat => "int_from_float"
  | finiteNumber => "finite_number"
  | intSize => "int_parsing_size"
  | intType => "int_type"
  | belowMinimum => "greater_than_equal"
  | stringType => "string_type"
  | tornText => "string_unicode"
  | listType => "list_type"
  | setType => "set_type"
  | groupType => "model_type"
  | unknownName => "extra_forbidden"

/-- A flaw and where it is, from the outside in. -/
structure Complaint where
  /-- The names and positions that lead to the value. -/
  place : List String
  /-- What is wrong with it. -/
  flaw : Flaw
  deriving DecidableEq, Repr

/-- A value that is wrong altogether. -/
def Complaint.here (flaw : Flaw) : List Complaint := [⟨[], flaw⟩]

namespace Coerce

/-! ### Truth values -/

/-- The numbers of 64 bits with a sign go up to this one, which is none of them. -/
def wordBound : Int := 0x8000000000000000

/-- The texts that mean true. -/
def trueWords : List String := ["1", "on", "t", "true", "y", "yes"]

/-- The texts that mean false. -/
def falseWords : List String := ["0", "off", "f", "false", "n", "no"]

/-- A number as a truth value. -/
def boolOfInt (n : Int) : Except Flaw Bool :=
  if n = 0 then .ok false else if n = 1 then .ok true else .error .boolParsing

/-- The integer that a number of double precision is.  The least and the greatest numbers of 64 bits are
out of range. -/
def intOfReal (x : Double) : Except Flaw Int :=
  match x, x.integer? with
  | .finite _ _, some n => if -wordBound < n ∧ n < wordBound then .ok n else .error .intSize
  | .finite _ _, none => .error .intFromFloat
  | _, _ => .error .finiteNumber

/-- A value as a truth value. -/
def toBool : Json → Except Flaw Bool
  | .bool b => .ok b
  | .int n => if -wordBound ≤ n ∧ n < wordBound then boolOfInt n else .error .boolType
  | .real x =>
      match intOfReal x with
      | .ok n => boolOfInt n
      | .error _ => .error .boolType
  | .text s =>
      if trueWords.contains s.toLower then .ok true
      else if falseWords.contains s.toLower then .ok false
      else .error .boolParsing
  | .torn _ => .error .tornText
  | _ => .error .boolType

/-! ### Integers -/

/-- The blanks that may stand around an integer. -/
def isPadding (c : Char) : Bool := Lines.isBlank c && !(0x1C ≤ c.toNat && c.toNat ≤ 0x1F)

/-- A text without the padding around it. -/
def unpadded (cs : List Char) : List Char :=
  ((cs.dropWhile isPadding).reverse.dropWhile isPadding).reverse

/-- May an integer start with a character, zero apart? -/
def isLead (c : Char) : Bool := ('1' ≤ c && c ≤ '9') || c = '-'

/-- A number behind zeros, the last of which is `last`.  Bars between the zeros go with them; a point
keeps what stands before it, and so does the end. -/
def dropZeros (last : Char) : List Char → Option (List Char)
  | [] => some [last]
  | c :: cs =>
      if c = '0' ∨ c = '_' then dropZeros c cs
      else if isLead c then some (c :: cs)
      else if c = '.' then some (last :: c :: cs)
      else none

/-- A number without the zeros it starts with. -/
def withoutZeros : List Char → Option (List Char)
  | [] => none
  | c :: cs => if c = '0' then dropZeros c cs else if isLead c then some (c :: cs) else none

/-- A number without a plus sign and without the zeros it starts with; they may stand behind a minus
sign. -/
def withoutLead : List Char → Option (List Char)
  | '+' :: '-' :: _ => none
  | '+' :: cs => withoutZeros cs
  | '-' :: cs => (withoutZeros cs).map ('-' :: ·)
  | cs => withoutZeros cs

/-- A number without a fraction of zeros, of which there is at least one. -/
def withoutFraction (cs : List Char) : List Char :=
  match cs.dropWhile (· ≠ '.') with
  | _ :: '0' :: zeros => if zeros.all (· = '0') then cs.takeWhile (· ≠ '.') else cs
  | _ => cs

/-- A number without the bars in it, if they stand one by one and neither first nor last. -/
def withoutBars (cs : List Char) : List Char :=
  if (Separated.split '_' cs).all (!·.isEmpty) then cs.filter (· ≠ '_') else cs

/-- The most digits that an integer may have. -/
def longest : Nat := 4300

/-- An integer in plain digits, without a zero in front. -/
def plainInt (cs : List Char) : Except Flaw Int :=
  let negative := cs.head? = some '-'
  let body := if negative then cs.tail else cs
  let digits := body.takeWhile Char.isDigit
  if digits.head? = some '0' then if body = ['0'] then .ok 0 else .error .intParsing
  else if longest < digits.length then .error .intSize
  else if digits.isEmpty || digits.length ≠ body.length then .error .intParsing
  else .ok (Double.signed negative (digits.foldl (fun n d => n * 10 + (d.toNat - '0'.toNat)) 0))

/-- A text cleared of what may stand around and between the digits of an integer: padding, a plus sign,
zeros in front, a fraction of zeros and bars. -/
def cleared (cs : List Char) : Option (List Char) :=
  (withoutLead (unpadded cs)).map fun cs => withoutBars (withoutFraction cs)

/-- The integer that a text is, as it stands or else cleared.  Only the text as it stands can be too long;
one that is too long when cleared is no integer. -/
def intOfText (s : String) : Except Flaw Int :=
  match plainInt s.toList, cleared s.toList with
  | .error .intParsing, some cs => (plainInt cs).mapError fun _ => .intParsing
  | result, _ => result

/-- A value as an integer. -/
def toInt : Json → Except Flaw Int
  | .int n => .ok n
  | .bool b => .ok (if b then 1 else 0)
  | .real x => intOfReal x
  | .text s => intOfText s
  | .torn _ => .error .tornText
  | _ => .error .intType

/-- A value as an integer that is not below a least one. -/
def toIntFrom (least : Int) (v : Json) : Except Flaw Int := do
  let n ← toInt v
  if n < least then .error .belowMinimum else return n

/-- A value as an integer that may be left open. -/
def toInt? : Json → Except Flaw (Option Int)
  | .null => .ok none
  | v => (toInt v).map some

/-! ### Texts -/

/-- A value as a text. -/
def toText : Json → Except Flaw String
  | .text s => .ok s
  | .torn _ => .error .tornText
  | _ => .error .stringType

/-- The flaws of the items of a collection, each at its position. -/
def itemFlaws (vs : List Json) : List Complaint :=
  vs.zipIdx.filterMap fun (v, i) =>
    match toText v with
    | .ok _ => none
    | .error flaw => some ⟨[toString i], flaw⟩

/-- A value as a collection of texts; `flaw` is what a value that is no array is. -/
def toTexts (flaw : Flaw) : Json → Except (List Complaint) (List String)
  | .list vs =>
      if (itemFlaws vs).isEmpty then .ok (vs.filterMap Json.text?) else .error (itemFlaws vs)
  | _ => .error (Complaint.here flaw)

/-- Texts in ascending order and without repeats. -/
def sortedSet (ss : List String) : List String := (ss.eraseDups).mergeSort fun a b => decide (¬ b < a)

/-- A value as a set of texts. -/
def toTextSet (v : Json) : Except (List Complaint) (List String) := (toTexts .setType v).map sortedSet

end Coerce
end ScopeIndex
