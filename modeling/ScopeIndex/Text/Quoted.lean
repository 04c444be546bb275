import ScopeIndex.Text.Hidden

/-!
# Quoted text in diagnostics

A diagnostic shows a text between quotes, so that blanks and control characters can be told apart.  The
quotes are single, unless the text holds a single quote and no double one.  The quote itself, the
backslash and every character that does not show on a page are escaped.

## Main definitions

* `Quoted.ofText` — a text in quotes.
-/

namespace ScopeIndex
namespace Quoted

/-- The last `width` hexadecimal digits of a number. -/
def hexDigits (width n : Nat) : List Char :=
  (List.range width).map fun i => Nat.digitChar (n >>> (4 * (width - 1 - i)) % 16)

/-- A hidden character by its code point, in two, four or eight digits. -/
def hiddenForm (c : Char) : List Char :=
  let n := c.toNat
  if n < 0x100 then '\\' :: 'x' :: hexDigits 2 n
  else if n < 0x10000 then '\\' :: 'u' :: hexDigits 4 n
  else '\\' :: 'U' :: hexDigits 8 n

/-- One character between quotes `q`. -/
def charForm (q c : Char) : List Char :=
  if c = q ∨ c = '\\' then ['\\', c]
  else if c = '\n' then ['\\', 'n']
  else if c = '\r' then ['\\', 'r']
  else if c = '\t' then ['\\', 't']
  else if Hidden.has c then hiddenForm c
  else [c]

/-- The single quote. -/
def single : Char := '\x27'

/-- The double quote. -/
def double : Char := '\x22'

/-- The quote that needs the fewest escapes. -/
def quoteFor (cs : List Char) : Char :=
  if cs.contains single && !cs.contains double then double else single

/-- A text in quotes. -/
def ofText (s : String) : String :=
  let q := quoteFor s.toList
  String.ofList (q :: s.toList.flatMap (charForm q) ++ [q])

end Quoted
end ScopeIndex
