import ScopeIndex.Number.Double

/-!
# The shortest decimal of a number

A number of double precision is written with the fewest digits that read back as the same number; of two
such decimals the nearer one counts, and of two equally near ones the even one.  The number is written
positionally if its first digit stands between the fourth place behind the point and the sixteenth before
it, and with an exponent of at least two digits otherwise.

## Main definitions

* `Shortest.Decimal` — digits at a power of ten.
* `Shortest.readsBack` — the decimals that are nearest to a number.
* `Shortest.ofUnits` — the decimal with the fewest digits among them.
* `Double.text` — the written form.
-/

namespace ScopeIndex
namespace Shortest

/-- The number `digits × 10 ^ exponent`. -/
structure Decimal where
  /-- The digits. -/
  digits : Nat
  /-- The power of ten of the last digit. -/
  exponent : Int
  deriving DecidableEq, Repr

/-- The two sides of the comparison of a decimal with `quarters` fourths of a unit, as naturals. -/
def sides (d : Decimal) (quarters : Nat) : Nat × Nat :=
  ((d.digits * power 10 d.exponent.toNat) <<< (Double.unitBits + 2),
    quarters * power 10 (-d.exponent).toNat)

/-- Is the number of units the least one with its number of bits, and are there nearer numbers below it
than above? -/
def isNarrow (units : Nat) : Bool := Double.gap units ≠ 1 && units = 1 <<< units.log2

/-- Is a decimal nearer to a number than to its neighbours?  Halfway counts if the significand is even. -/
def readsBack (units : Nat) (d : Decimal) : Bool :=
  let gap := Double.gap units
  let low := sides d (4 * units - if isNarrow units then gap else 2 * gap)
  let high := sides d (4 * units + 2 * gap)
  let even := units / gap % 2 = 0
  (low.2 < low.1 || (even && low.1 == low.2)) && (high.1 < high.2 || (even && high.1 == high.2))

/-- The place of the first digit: the least `k` such that the number is below `10 ^ k`. -/
def place (units : Nat) : Int :=
  let guess := ((units.log2 : Int) - Double.unitBits) * 30103 / 100000
  ([guess, guess + 1].find? fun k =>
    let s := sides ⟨1, k⟩ (4 * units)
    decide (s.2 < s.1)).getD (guess + 2)

/-- The decimals of a number that is cut, and cut and raised, behind the power `exponent` of ten. -/
def neighbours (units : Nat) (exponent : Int) : Decimal × Decimal :=
  let q := units * power 10 (-exponent).toNat / (power 10 exponent.toNat <<< Double.unitBits)
  (⟨q, exponent⟩, ⟨q + 1, exponent⟩)

/-- Of two neighbours the one nearer to a number, and halfway the even one. -/
def nearer (units : Nat) (below above : Decimal) : Decimal :=
  let s := sides ⟨below.digits + above.digits, below.exponent⟩ (8 * units)
  if s.2 < s.1 then below
  else if s.1 < s.2 then above
  else if below.digits % 2 = 0 then below
  else above

/-- The decimal with this many digits that reads back, if there is one. -/
def withDigits? (units : Nat) (count : Nat) : Option Decimal :=
  let (below, above) := neighbours units (place units - count)
  match readsBack units below, readsBack units above with
  | true, true => some (nearer units below above)
  | true, false => some below
  | false, true => some above
  | false, false => none

/-- The decimal with the fewest digits that reads back.  Seventeen digits always do. -/
def ofUnits (units : Nat) : Decimal :=
  ((List.range 17).findSome? fun n => withDigits? units (n + 1)).getD
    (neighbours units (place units - 17)).1

/-- Digits without the zeros at their end. -/
def dropZeros (ds : List Char) : List Char := (ds.reverse.dropWhile (· = '0')).reverse

/-- An exponent with its sign and at least two digits. -/
def exponentForm (e : Int) : List Char :=
  let ds := Nat.toDigits 10 e.natAbs
  (if e < 0 then '-' else '+') :: if ds.length < 2 then '0' :: ds else ds

/-- The written form of a number of units.  The power of ten of the first digit decides how it is
written. -/
def form (units : Nat) : List Char :=
  if units = 0 then ['0', '.', '0']
  else
    let d := ofUnits units
    let ds := Nat.toDigits 10 d.digits
    let lead := d.exponent + ds.length - 1
    let ds := dropZeros ds
    if -4 ≤ lead ∧ lead < 16 then
      if lead < 0 then '0' :: '.' :: (List.replicate (-lead - 1).toNat '0' ++ ds)
      else
        let whole := lead.toNat + 1
        let fraction := ds.drop whole
        ds.take whole ++ List.replicate (whole - ds.length) '0'
          ++ '.' :: if fraction.isEmpty then ['0'] else fraction
    else
      let fraction := ds.drop 1
      ds.take 1 ++ (if fraction.isEmpty then [] else '.' :: fraction) ++ 'e' :: exponentForm lead

end Shortest

/-- The written form of a number. -/
def Double.text : Double → String
  | .finite negative units => (if negative then "-" else "") ++ String.ofList (Shortest.form units)
  | .infinite negative => if negative then "-inf" else "inf"
  | .nan => "nan"

end ScopeIndex
