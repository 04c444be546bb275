/-!
# Halves of characters

In units of 16 bits a character above the first 65536 code points takes two units, which no character has
for its own code point.  Such a half means nothing by itself.

## Main definitions

* `Utf16.join` — code points in which halves that belong together are one.
* `Utf16.isTorn` — is there a half without its other one?
-/

namespace ScopeIndex
namespace Utf16

/-- Is a unit the first half of a character? -/
def isFirstHalf (n : Nat) : Bool := 0xD800 ≤ n && n < 0xDC00

/-- Is a unit the second half of a character? -/
def isSecondHalf (n : Nat) : Bool := 0xDC00 ≤ n && n < 0xE000

/-- The code point of two halves. -/
def whole (first second : Nat) : Nat := 0x10000 + (first - 0xD800) * 0x400 + (second - 0xDC00)

/-- Units in which two halves that stand side by side become one code point. -/
def join : List Nat → List Nat
  | [] => []
  | [n] => [n]
  | m :: n :: us =>
      if isFirstHalf m && isSecondHalf n then whole m n :: join us else m :: join (n :: us)

/-- Is there half of a character, or no code point at all, among code points? -/
def isTorn (points : List Nat) : Bool := points.any fun n => !decide n.isValidChar

/-- The characters of code points, with the replacement character for each half. -/
def chars (points : List Nat) : List Char :=
  points.map fun n => if n.isValidChar then Char.ofNat n else '�'

@[simp] theorem join_nil : join [] = [] := rfl

end Utf16
end ScopeIndex
