import ScopeIndex.Text.Separated

/-!
# Lines and blanks

Which characters end a line and which are blank, beyond the ASCII ones: the tables hold every
character of Unicode with that role.

## Main definitions

* `Lines.isBreak`, `Lines.isBlank` — the two character classes.
* `Lines.split` — the lines of a text, without their ends.
* `Lines.unify`, `Lines.joinReturns` — a text whose lines end with a line feed alone.
* `Lines.trimStart`, `Lines.trimEnd`, `Lines.trim` — a text without the blanks at an end.
-/

namespace ScopeIndex
namespace Lines

/-- The characters that end a line, by code point. -/
def breaks : List Nat := [0x0A, 0x0B, 0x0C, 0x0D, 0x1C, 0x1D, 0x1E, 0x85, 0x2028, 0x2029]

/-- The blank characters, by code point. -/
def blanks : List Nat :=
  [0x09, 0x0A, 0x0B, 0x0C, 0x0D, 0x1C, 0x1D, 0x1E, 0x1F, 0x20, 0x85, 0xA0, 0x1680,
    0x2000, 0x2001, 0x2002, 0x2003, 0x2004, 0x2005, 0x2006, 0x2007, 0x2008, 0x2009, 0x200A,
    0x2028, 0x2029, 0x202F, 0x205F, 0x3000]

/-- Does a character end a line? -/
def isBreak (c : Char) : Bool := breaks.contains c.toNat

/-- Is a character blank? -/
def isBlank (c : Char) : Bool := blanks.contains c.toNat

/-- The lines of a text, without their ends.  A carriage return and the line feed behind it are one
end; a text that ends with a line end has no further line. -/
def split : List Char → List (List Char)
  | [] => []
  | '\r' :: '\n' :: cs => [] :: split cs
  | c :: cs => if isBreak c then [] :: split cs else Separated.consHead c (split cs)

/-- A text whose carriage returns, with the line feeds right behind them, are line feeds. -/
def unify : List Char → List Char
  | [] => []
  | '\r' :: '\n' :: cs => '\n' :: unify cs
  | c :: cs => (if c = '\r' then '\n' else c) :: unify cs

/-- A text in which a carriage return right before a line feed is dropped. -/
def joinReturns : List Char → List Char
  | [] => []
  | '\r' :: '\n' :: cs => '\n' :: joinReturns cs
  | c :: cs => c :: joinReturns cs

/-- A text without the blanks it starts with. -/
def trimStart (cs : List Char) : List Char := cs.dropWhile isBlank

/-- A text without the blanks it ends with. -/
def trimEnd (cs : List Char) : List Char := (cs.reverse.dropWhile isBlank).reverse

/-- A text without the blanks at either end. -/
def trim (cs : List Char) : List Char := trimEnd (trimStart cs)

end Lines
end ScopeIndex
