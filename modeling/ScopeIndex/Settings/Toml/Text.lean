import ScopeIndex.Json.Reader
import ScopeIndex.Text.Lines

/-!
# Blanks, comments and texts in files with tables

A text stands between double quotes, where a backslash begins an escape, or between single quotes, where
it does not.  Three quotes at each end let a text go over several lines: a line feed right behind the
opening quotes does not belong to it, a backslash at the end of a line joins the next word to it, and one
or two more quotes may stand right before the closing ones.  Control characters are nowhere allowed but
for the tab.

## Main definitions

* `Toml.skipBlank`, `Toml.skipComment`, `Toml.skipLines` — what stands between the parts of a file.
* `Toml.readLineText`, `Toml.readText` — a text, on one line or on several.

## References

The class `TomlConfigSettingsSource`, by which `load_settings` of jsindex reads a settings file: its texts
and comments.
-/

namespace ScopeIndex
namespace Toml

/-- May a character stand in a text or a comment as it is? -/
def isPlain (c : Char) : Bool := c = '\t' || (0x20 ≤ c.toNat && c.toNat ≠ 0x7F)

/-- Is a character a blank on the line? -/
def isBlank (c : Char) : Bool := c = ' ' || c = '\t'

/-! ### Blanks and comments -/

/-- The text behind blanks on the line. -/
def skipBlank (cs : List Char) : List Char := cs.dropWhile isBlank

/-- The text behind a comment, up to the end of the line. -/
def skipComment : List Char → Except ReadFlaw (List Char)
  | '#' :: cs =>
      if (cs.takeWhile (· ≠ '\n')).all isPlain then .ok (cs.dropWhile (· ≠ '\n'))
      else .error .malformed
  | cs => .ok cs

/-- The text behind blanks, comments and line ends; each round takes at least one character. -/
def skipRounds : Nat → List Char → Except ReadFlaw (List Char)
  | 0, cs => .ok cs
  | fuel + 1, cs => do
      match ← skipComment (skipBlank cs) with
      | '\n' :: r => skipRounds fuel r
      | r => return r

/-- The text behind blanks, comments and line ends. -/
def skipLines (cs : List Char) : Except ReadFlaw (List Char) := skipRounds (cs.length + 1) cs

/-! ### Escapes -/

/-- The number that hexadecimal digits spell. -/
def hexNumber? (ds : List Char) : Option Nat :=
  ds.foldlM (fun n d => (Json.hexValue? d).map (n * 16 + ·)) 0

/-- The character that a one-letter escape means. -/
def shortEscape (c : Char) : Except ReadFlaw Char :=
  match c with
  | 'b' => .ok (Char.ofNat 0x08)
  | 't' => .ok '\t'
  | 'n' => .ok '\n'
  | 'f' => .ok (Char.ofNat 0x0C)
  | 'r' => .ok '\r'
  | '\x22' => .ok '\x22'
  | '\\' => .ok '\\'
  | _ => .error .malformed

/-- The character that a code of hexadecimal digits means. -/
def codeEscape (ds : List Char) : Except ReadFlaw Char :=
  match hexNumber? ds with
  | some n => if n.isValidChar then .ok (Char.ofNat n) else .error .malformed
  | none => .error .malformed

/-- One more character in front of what was read. -/
def consText (c : Char) : Except ReadFlaw (List Char × List Char) → Except ReadFlaw (List Char × List Char)
  | .ok (s, r) => .ok (c :: s, r)
  | .error e => .error e

/-- One more escaped character in front of what was read. -/
def consEscape (c : Except ReadFlaw Char) (found : Except ReadFlaw (List Char × List Char)) :
    Except ReadFlaw (List Char × List Char) :=
  match c with
  | .ok c => consText c found
  | .error e => .error e

/-! ### Texts on one line -/

/-- A text behind its opening double quote, and what follows the closing one. -/
def readBasic : List Char → Except ReadFlaw (List Char × List Char)
  | [] => .error .malformed
  | '\\' :: 'u' :: a :: b :: c :: d :: cs => consEscape (codeEscape [a, b, c, d]) (readBasic cs)
  | '\\' :: 'U' :: a :: b :: c :: d :: a' :: b' :: c' :: d' :: cs =>
      consEscape (codeEscape [a, b, c, d, a', b', c', d']) (readBasic cs)
  | '\\' :: c :: cs => consEscape (shortEscape c) (readBasic cs)
  | c :: cs =>
      if c = '\x22' then .ok ([], cs)
      else if isPlain c && c ≠ '\\' then consText c (readBasic cs)
      else .error .malformed

/-- A text behind its opening single quote, and what follows the closing one. -/
def readLiteral (cs : List Char) : Except ReadFlaw (List Char × List Char) :=
  match cs.dropWhile fun c => isPlain c && c ≠ '\x27' with
  | '\x27' :: r => .ok (cs.takeWhile fun c => isPlain c && c ≠ '\x27', r)
  | _ => .error .malformed

/-- A text on one line, if the input starts with a quote. -/
def readLineText : List Char → Option (Except ReadFlaw (List Char × List Char))
  | '\x22' :: r => some (readBasic r)
  | '\x27' :: r => some (readLiteral r)
  | _ => none

/-! ### Texts on several lines -/

/-- Where a text on several lines stands behind a backslash at the end of a line. -/
inductive Joint where
  /-- Not behind such a backslash. -/
  | none
  /-- Behind the backslash and a blank, before the end of the line. -/
  | opened
  /-- Behind the end of the line, before the next word. -/
  | crossed

/-- A text on several lines behind its opening double quotes, and what follows the closing ones. -/
def readLongBasic : Joint → List Char → Except ReadFlaw (List Char × List Char)
  | _, [] => .error .malformed
  | .opened, c :: cs =>
      if isBlank c then readLongBasic .opened cs
      else if c = '\n' then readLongBasic .crossed cs
      else .error .malformed
  | _, '\\' :: 'u' :: a :: b :: c :: d :: cs =>
      consEscape (codeEscape [a, b, c, d]) (readLongBasic .none cs)
  | _, '\\' :: 'U' :: a :: b :: c :: d :: a' :: b' :: c' :: d' :: cs =>
      consEscape (codeEscape [a, b, c, d, a', b', c', d']) (readLongBasic .none cs)
  | _, '\\' :: '\n' :: cs => readLongBasic .crossed cs
  | _, '\\' :: ' ' :: cs => readLongBasic .opened cs
  | _, '\\' :: '\t' :: cs => readLongBasic .opened cs
  | _, '\\' :: c :: cs => consEscape (shortEscape c) (readLongBasic .none cs)
  | _, '\x22' :: '\x22' :: '\x22' :: cs => .ok ([], cs)
  | .crossed, c :: cs =>
      if isBlank c || c = '\n' then readLongBasic .crossed cs
      else if isPlain c && c ≠ '\\' then consText c (readLongBasic .none cs)
      else .error .malformed
  | .none, c :: cs =>
      if (isPlain c || c = '\n') && c ≠ '\\' then consText c (readLongBasic .none cs)
      else .error .malformed

/-- A text on several lines behind its opening single quotes, and what follows the closing ones. -/
def readLongLiteral : List Char → Except ReadFlaw (List Char × List Char)
  | [] => .error .malformed
  | '\x27' :: '\x27' :: '\x27' :: cs => .ok ([], cs)
  | c :: cs => if isPlain c || c = '\n' then consText c (readLongLiteral cs) else .error .malformed

/-- The text behind the line feed that it starts with, if it does. -/
def skipFirstBreak : List Char → List Char
  | '\n' :: cs => cs
  | cs => cs

/-- A text with up to two more quotes that follow its closing ones. -/
def takeQuotes (q : Char) (found : List Char × List Char) : List Char × List Char :=
  let extra := (found.2.take 2).takeWhile (· = q)
  (found.1 ++ extra, found.2.drop extra.length)

/-- A text, on one line or on several, if the input starts with a quote. -/
def readText : List Char → Option (Except ReadFlaw (List Char × List Char))
  | '\x22' :: '\x22' :: '\x22' :: r =>
      some ((readLongBasic .none (skipFirstBreak r)).map (takeQuotes '\x22'))
  | '\x27' :: '\x27' :: '\x27' :: r =>
      some ((readLongLiteral (skipFirstBreak r)).map (takeQuotes '\x27'))
  | cs => readLineText cs

end Toml
end ScopeIndex
