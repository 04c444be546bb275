import ScopeIndex.Text.Utf16
import ScopeIndex.Text.Utf8

/-!
# Encodings

A file is bytes; an encoding tells which characters they are.  An encoding is chosen by its name, in which
only letters, digits and points count, and their case does not.

## Main definitions

* `Encoding`, `Encoding.ofName?` — the encodings, and the one that a name stands for.
* `Encoding.decode?` — the characters of bytes.
-/

namespace ScopeIndex

/-- The order of the bytes of a unit. -/
inductive ByteOrder where
  /-- The lowest byte comes first. -/
  | little
  /-- The highest byte comes first. -/
  | big
  /-- A mark in front tells; without one the lowest byte comes first. -/
  | marked
  deriving DecidableEq, Repr

/-- A way to read bytes as characters. -/
inductive Encoding where
  /-- UTF-8. -/
  | utf8
  /-- UTF-8 behind a mark, which may be missing. -/
  | markedUtf8
  /-- Every byte below 0x80 is the character of its number. -/
  | ascii
  /-- Every byte is the character of its number. -/
  | latin1
  /-- Like `latin1`, but with letters and signs in the row from 0x80 to 0x9F. -/
  | windows
  /-- Units of two bytes. -/
  | utf16 (order : ByteOrder)
  /-- Units of four bytes. -/
  | utf32 (order : ByteOrder)
  deriving DecidableEq, Repr

namespace Encoding

/-! ### Names -/

/-- The parts of a name between characters that do not count. -/
def nameParts : List Char → List (List Char)
  | [] => [[]]
  | c :: cs =>
      if c.isAlphanum || c = '.' then
        match nameParts cs with
        | part :: parts => (c.toLower :: part) :: parts
        | [] => [[c.toLower]]
      else [] :: nameParts cs

/-- A name as names are compared: its parts in lower case, with a bar between them. -/
def canonicalName (name : String) : String :=
  "_".intercalate (((nameParts name.toList).filter (!·.isEmpty)).map String.ofList)

/-- The names of each encoding. -/
def names : List (Encoding × List String) :=
  [(utf8, ["utf_8", "utf8", "u8", "utf", "utf8_ucs2", "utf8_ucs4", "cp65001"]),
    (markedUtf8, ["utf_8_sig"]),
    (ascii, ["ascii", "646", "us_ascii", "us", "ansi_x3.4_1968", "ansi_x3_4_1968", "iso646_us", "cp367",
      "ibm367", "iso_646.irv_1991", "iso_ir_6", "csascii", "ansi_x3.4_1986", "ansi_x3_4_1986"]),
    (latin1, ["latin_1", "latin1", "latin", "l1", "8859", "iso8859", "iso8859_1", "iso_8859_1",
      "iso_8859_1_1987", "iso_ir_100", "csisolatin1", "cp819", "ibm819"]),
    (windows, ["cp1252", "1252", "windows_1252"]),
    (utf16 .marked, ["utf_16", "utf16", "u16"]),
    (utf16 .little, ["utf_16_le", "utf_16le", "unicodelittleunmarked"]),
    (utf16 .big, ["utf_16_be", "utf_16be", "unicodebigunmarked"]),
    (utf32 .marked, ["utf_32", "utf32", "u32"]),
    (utf32 .little, ["utf_32_le", "utf_32le"]),
    (utf32 .big, ["utf_32_be", "utf_32be"])]

/-- The encoding that a name stands for. -/
def ofName? (name : String) : Option Encoding :=
  (names.find? fun e => e.2.contains (canonicalName name)).map (·.1)

/-! ### Bytes -/

/-- The row of the Windows alphabet from 0x80 to 0x9F; zero where there is no character. -/
def windowsRow : List Nat :=
  [0x20AC, 0, 0x201A, 0x192, 0x201E, 0x2026, 0x2020, 0x2021, 0x2C6, 0x2030, 0x160, 0x2039, 0x152, 0, 0x17D, 0,
    0, 0x2018, 0x2019, 0x201C, 0x201D, 0x2022, 0x2013, 0x2014, 0x2DC, 0x2122, 0x161, 0x203A, 0x153, 0, 0x17E,
    0x178]

/-- A byte of the Windows alphabet. -/
def windowsChar? (b : UInt8) : Option Char :=
  if 0x80 ≤ b.toNat ∧ b.toNat < 0xA0 then
    match windowsRow.getD (b.toNat - 0x80) 0 with
    | 0 => none
    | n => some (Char.ofNat n)
  else some (Char.ofNat b.toNat)

/-- The number of bytes, the lowest one first. -/
def number (bs : List UInt8) : Nat := bs.foldr (fun b n => n * 256 + b.toNat) 0

/-- Bytes in units of two, if there is no byte left over. -/
def pairs : List UInt8 → Option (List (List UInt8))
  | [] => some []
  | a :: b :: bs => (pairs bs).map ([a, b] :: ·)
  | _ => none

/-- Bytes in units of four, if there is no byte left over. -/
def fours : List UInt8 → Option (List (List UInt8))
  | [] => some []
  | a :: b :: c :: d :: bs => (fours bs).map ([a, b, c, d] :: ·)
  | _ => none

/-- The numbers of units, by the order of their bytes.  Only a mark that tells the order is dropped. -/
def numbers (order : ByteOrder) (units : List (List UInt8)) : List Nat :=
  let big := units.map fun u => number u.reverse
  let little := units.map number
  match order with
  | .little => little
  | .big => big
  | .marked =>
      if little.head? = some 0xFEFF then little.tail
      else if big.head? = some 0xFEFF then big.tail
      else little

/-- The characters of code points, if all of them have one. -/
def ofPoints? (points : List Nat) : Option (List Char) :=
  if Utf16.isTorn points then none else some (Utf16.chars points)

/-- Bytes behind the mark that they may start with. -/
def behindMark : List UInt8 → List UInt8
  | 0xEF :: 0xBB :: 0xBF :: bs => bs
  | bs => bs

/-- The characters of bytes, if they are well formed. -/
def decode? : Encoding → List UInt8 → Option (List Char)
  | utf8, bs => Utf8.decode? bs
  | markedUtf8, bs => Utf8.decode? (behindMark bs)
  | ascii, bs => bs.mapM fun b => if b.toNat < 0x80 then some (Char.ofNat b.toNat) else none
  | latin1, bs => some (bs.map fun b => Char.ofNat b.toNat)
  | windows, bs => bs.mapM windowsChar?
  | utf16 order, bs => (pairs bs).bind fun units => ofPoints? (Utf16.join (numbers order units))
  | utf32 order, bs => (fours bs).bind fun units => ofPoints? (numbers order units)

end Encoding
end ScopeIndex
