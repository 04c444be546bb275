/-!
# Numbers of double precision

A number of double precision is a multiple of the least positive one, `2 ^ -1074`, with a significand of
53 bits, or an infinity, or no number at all.  A finite number is kept by its sign and by how many units
of that size it holds, so zero has a sign too.  Decimals are rounded to the nearest such number, halves
to the one with the even significand.

## Main definitions

* `Double` — the numbers.
* `Double.ofDecimal` — the number nearest to a decimal.
* `Double.integer?` — the integer that a number is.
-/

namespace ScopeIndex

/-- The power of a base, by the primitive operation. -/
def power (base n : Nat) : Nat := Nat.pow base n

/-- A number of double precision. -/
inductive Double where
  /-- `units × 2 ^ -1074`, with a sign. -/
  | finite (negative : Bool) (units : Nat)
  /-- An infinity. -/
  | infinite (negative : Bool)
  /-- No number. -/
  | nan
  deriving DecidableEq, Repr

namespace Double

/-- How many units make one, as a power of two. -/
def unitBits : Nat := 1074

/-- The bits of a significand. -/
def precision : Nat := 53

/-- The least number of units that is out of range, as a power of two. -/
def rangeBits : Nat := unitBits + 1024

/-- The distance from a number of units to the next number above it. -/
def gap (units : Nat) : Nat := 1 <<< (units.log2 + 1 - precision)

/-- A fraction rounded to the nearest integer, halves to the even one. -/
def roundHalfEven (num den : Nat) : Nat :=
  let q := num / den
  let r := num % den
  if 2 * r > den ∨ (2 * r = den ∧ q % 2 = 1) then q + 1 else q

/-- The number nearest to a fraction. -/
def ofRatio (negative : Bool) (num den : Nat) : Double :=
  let scaled := num <<< unitBits
  let step := gap (scaled / den)
  let units := roundHalfEven scaled (den * step) * step
  if units < 1 <<< rangeBits then .finite negative units else .infinite negative

/-- The number nearest to `digits × 10 ^ exponent`.  Above `10 ^ 310` all are infinite, and below
`10 ^ -330` all are zero. -/
def ofDecimal (negative : Bool) (digits : Nat) (exponent : Int) : Double :=
  let magnitude := (Nat.toDigits 10 digits).length + exponent
  if digits = 0 ∨ magnitude < -330 then .finite negative 0
  else if 310 < magnitude then .infinite negative
  else ofRatio negative (digits * power 10 exponent.toNat) (power 10 (-exponent).toNat)

/-- A natural number with a sign. -/
def signed (negative : Bool) (n : Nat) : Int := if negative then -(n : Int) else n

/-- The integer that a number is, if it is one. -/
def integer? : Double → Option Int
  | .finite negative units =>
      if units % (1 <<< unitBits) = 0 then some (signed negative (units >>> unitBits)) else none
  | _ => none

end Double
end ScopeIndex
