import ScopeIndex.Json.Reader

/-!
# Dates and times in files with tables

A date has a year of four digits, a month and a day.  Behind a blank or the letter `T` a time of day may
follow it, and behind that the letter `Z` or the distance from it.  A time of day may also stand alone.
No setting is a date or a time, so only the spelling is kept; a day that is in no calendar is malformed.

## Main definitions

* `Toml.readMoment?` — a date, a time of day or both at the front of the text.

## References

The class `TomlConfigSettingsSource`, by which `load_settings` of jsindex reads a settings file: its dates
and times.
-/

namespace ScopeIndex
namespace Toml

/-- Two digits that spell a number between two bounds. -/
def readPair? (low high : Nat) : List Char → Option (Nat × List Char)
  | a :: b :: cs =>
      let n := (a.toNat - '0'.toNat) * 10 + (b.toNat - '0'.toNat)
      if a.isDigit && b.isDigit && low ≤ n && n ≤ high then some (n, cs) else none
  | _ => none

/-- The text behind a character that it starts with. -/
def skipChar? (c : Char) : List Char → Option (List Char)
  | d :: cs => if d = c then some cs else none
  | [] => none

/-- Does a year have a day more than others? -/
def isLeap (year : Nat) : Bool := year % 4 = 0 && (year % 100 ≠ 0 || year % 400 = 0)

/-- The days of a month. -/
def daysOf (year month : Nat) : Nat :=
  if month = 2 then if isLeap year then 29 else 28
  else if month = 4 ∨ month = 6 ∨ month = 9 ∨ month = 11 then 30
  else 31

/-- A date: is it in the calendar, and what follows it? -/
def readDate? (cs : List Char) : Option (Bool × List Char) := do
  let (century, r) ← readPair? 0 99 cs
  let (years, r) ← readPair? 0 99 r
  let (month, r) ← readPair? 1 12 (← skipChar? '-' r)
  let (day, r) ← readPair? 1 31 (← skipChar? '-' r)
  let year := century * 100 + years
  return (1 ≤ year && day ≤ daysOf year month, r)

/-- The text behind the fraction of a second, if there is one. -/
def skipFraction : List Char → List Char
  | '.' :: cs => if cs.head?.any Char.isDigit then cs.dropWhile Char.isDigit else '.' :: cs
  | cs => cs

/-- The text behind a time of day. -/
def skipClock? (cs : List Char) : Option (List Char) := do
  let (_, r) ← readPair? 0 23 cs
  let (_, r) ← readPair? 0 59 (← skipChar? ':' r)
  let (_, r) ← readPair? 0 59 (← skipChar? ':' r)
  return skipFraction r

/-- The text behind the distance of a time from a common one. -/
def skipDistance? (cs : List Char) : Option (List Char) := do
  let (_, r) ← readPair? 0 23 cs
  let (_, r) ← readPair? 0 59 (← skipChar? ':' r)
  return r

/-- The text behind a zone, if there is one. -/
def skipZone : List Char → List Char
  | [] => []
  | c :: cs =>
      if c = 'Z' ∨ c = 'z' then cs
      else if c = '+' ∨ c = '-' then (skipDistance? cs).getD (c :: cs)
      else c :: cs

/-- The text behind the time of day that follows a date, if one does. -/
def skipTime : List Char → List Char
  | [] => []
  | c :: cs =>
      if c = 'T' ∨ c = 't' ∨ c = ' ' then ((skipClock? cs).map skipZone).getD (c :: cs) else c :: cs

/-- What stands before the rest of a text. -/
def spellingBefore (cs rest : List Char) : String := String.ofList (cs.take (cs.length - rest.length))

/-- A date, a time of day or both, if the text starts with one. -/
def readMoment? (cs : List Char) : Option (Except ReadFlaw (Json × List Char)) :=
  match readDate? cs with
  | some (true, r) => some (.ok (.moment (spellingBefore cs (skipTime r)), skipTime r))
  | some (false, _) => some (.error .malformed)
  | none => (skipClock? cs).map fun r => .ok (.moment (spellingBefore cs r), r)

end Toml
end ScopeIndex
