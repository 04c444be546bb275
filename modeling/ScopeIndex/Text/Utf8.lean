/-!
# Reading UTF-8

A byte of UTF-8 is a character by itself or announces how many bytes follow it, and from which range
each of them is.  `read` takes one character, or one malformed stretch, off the front of a list of
bytes.  A malformed stretch is as long as it can still begin some character, and at least one byte;
the byte that breaks it is read again as the start of the next character.

## Main definitions

* `Utf8.read` — the first character of a byte list, if it is well formed, and the bytes behind it.
* `Utf8.decode` — the text of any byte list, with the replacement character for each malformed stretch.
* `Utf8.decode?` — the text of a byte list without malformed stretches.
* `Utf8.encode` — the bytes of a text.
-/

namespace ScopeIndex
namespace Utf8

/-- The character that stands for a malformed stretch. -/
def replacement : Char := '\uFFFD'

/-- The bytes that may stand at one place of a character. -/
structure ByteRange where
  /-- The least byte. -/
  low : Nat
  /-- The greatest byte. -/
  high : Nat
  deriving DecidableEq, Repr

/-- Does a byte lie in the range? -/
def ByteRange.has (r : ByteRange) (b : UInt8) : Bool := r.low ≤ b.toNat && b.toNat ≤ r.high

/-- Any byte that continues a character. -/
def ByteRange.tail : ByteRange := ⟨0x80, 0xBF⟩

/-- What the first byte of a character announces: the bits it contributes itself and the ranges of
the bytes to follow. -/
structure Lead where
  /-- The bits the first byte contributes. -/
  bits : Nat
  /-- The ranges of the bytes to follow, in order. -/
  follow : List ByteRange
  deriving DecidableEq, Repr

/-- The lead a byte gives, if it can begin a character.  The narrower second ranges keep out
overlong forms, surrogates and numbers above the last code point. -/
def Lead.ofByte? (b : UInt8) : Option Lead :=
  let n := b.toNat
  if n ≤ 0x7F then some ⟨n, []⟩
  else if n < 0xC2 then none
  else if n ≤ 0xDF then some ⟨n - 0xC0, [.tail]⟩
  else if n = 0xE0 then some ⟨0, [⟨0xA0, 0xBF⟩, .tail]⟩
  else if n = 0xED then some ⟨0xD, [⟨0x80, 0x9F⟩, .tail]⟩
  else if n ≤ 0xEF then some ⟨n - 0xE0, [.tail, .tail]⟩
  else if n = 0xF0 then some ⟨0, [⟨0x90, 0xBF⟩, .tail, .tail]⟩
  else if n ≤ 0xF3 then some ⟨n - 0xF0, [.tail, .tail, .tail]⟩
  else if n = 0xF4 then some ⟨4, [⟨0x80, 0x8F⟩, .tail, .tail]⟩
  else none

/-- Take the announced bytes, gathering their six low bits each.  The code point is missing when a
byte is missing or out of its range; that byte is not taken. -/
def gather (bits : Nat) : List ByteRange → List UInt8 → Option Nat × List UInt8
  | [], bs => (some bits, bs)
  | _ :: _, [] => (none, [])
  | r :: rs, b :: bs =>
      if r.has b then gather (bits * 64 + b.toNat % 64) rs bs else (none, b :: bs)

/-- Take one character, or one malformed stretch, that starts with byte `b`. -/
def read (b : UInt8) (bs : List UInt8) : Option Char × List UInt8 :=
  match Lead.ofByte? b with
  | none => (none, bs)
  | some lead =>
      let (code, rest) := gather lead.bits lead.follow bs
      (code.map Char.ofNat, rest)

theorem length_gather_le (bits : Nat) (rs : List ByteRange) (bs : List UInt8) :
    (gather bits rs bs).2.length ≤ bs.length := by
  induction rs generalizing bits bs with
  | nil => simp [gather]
  | cons r rs ih =>
      cases bs with
      | nil => simp [gather]
      | cons b bs =>
          by_cases h : r.has b
          · simpa [gather, h] using Nat.le_succ_of_le (ih (bits * 64 + b.toNat % 64) bs)
          · simp [gather, h]

/-- Reading never gives bytes back. -/
theorem length_read_le (b : UInt8) (bs : List UInt8) : (read b bs).2.length ≤ bs.length := by
  unfold read
  split
  · exact Nat.le_refl _
  · exact length_gather_le _ _ _

/-- The characters of a byte list, `none` for each malformed stretch. -/
def chunks : List UInt8 → List (Option Char)
  | [] => []
  | b :: bs => (read b bs).1 :: chunks (read b bs).2
termination_by bs => bs.length
decreasing_by exact Nat.lt_succ_of_le (length_read_le b bs)

@[simp] theorem chunks_nil : chunks [] = [] := by rw [chunks]

theorem chunks_cons (b : UInt8) (bs : List UInt8) :
    chunks (b :: bs) = (read b bs).1 :: chunks (read b bs).2 := by rw [chunks]

/-- The text of any byte list: each malformed stretch becomes one replacement character. -/
def decode (bs : List UInt8) : List Char := (chunks bs).map (·.getD replacement)

/-- The text of a byte list, if none of it is malformed. -/
def decode? (bs : List UInt8) : Option (List Char) := (chunks bs).mapM id

@[simp] theorem decode_nil : decode [] = [] := by simp [decode]

/-- A byte below 0x80 is a character by itself, whatever follows it. -/
theorem read_ascii {b : UInt8} (h : b.toNat ≤ 0x7F) (bs : List UInt8) :
    read b bs = (some (Char.ofNat b.toNat), bs) := by
  simp [read, Lead.ofByte?, h, gather]

/-- The bytes of a text. -/
def encode (s : String) : List UInt8 := s.toUTF8.data.toList

end Utf8
end ScopeIndex
