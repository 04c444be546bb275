/-!
# SHA-256

The digest of a byte string, written in lower-case hexadecimal.  The message is padded to whole blocks
of 64 bytes, and each block is folded into a state of eight words by 64 rounds.

## Main definitions

* `Sha256.digest` — the eight words of a message's digest.
* `Sha256.hex` — the same as 64 hexadecimal digits.

## References

The function `compute_content_hash` of jsindex.
-/

namespace ScopeIndex
namespace Sha256

/-- The eight words that are folded over the blocks. -/
structure State where
  /-- First word. -/
  a : UInt32
  /-- Second word. -/
  b : UInt32
  /-- Third word. -/
  c : UInt32
  /-- Fourth word. -/
  d : UInt32
  /-- Fifth word. -/
  e : UInt32
  /-- Sixth word. -/
  f : UInt32
  /-- Seventh word. -/
  g : UInt32
  /-- Eighth word. -/
  h : UInt32
  deriving DecidableEq, Repr

/-- The state before the first block: fractional bits of the square roots of the first eight primes. -/
def State.initial : State where
  a := 0x6a09e667
  b := 0xbb67ae85
  c := 0x3c6ef372
  d := 0xa54ff53a
  e := 0x510e527f
  f := 0x9b05688c
  g := 0x1f83d9ab
  h := 0x5be0cd19

/-- Word by word sum of two states. -/
def State.add (s t : State) : State where
  a := s.a + t.a
  b := s.b + t.b
  c := s.c + t.c
  d := s.d + t.d
  e := s.e + t.e
  f := s.f + t.f
  g := s.g + t.g
  h := s.h + t.h

/-- The words of a state, in order. -/
def State.words (s : State) : List UInt32 := [s.a, s.b, s.c, s.d, s.e, s.f, s.g, s.h]

/-- One constant per round: fractional bits of the cube roots of the first 64 primes. -/
def constants : List UInt32 :=
  [0x428a2f98, 0x71374491, 0xb5c0fbcf, 0xe9b5dba5, 0x3956c25b, 0x59f111f1, 0x923f82a4, 0xab1c5ed5,
    0xd807aa98, 0x12835b01, 0x243185be, 0x550c7dc3, 0x72be5d74, 0x80deb1fe, 0x9bdc06a7, 0xc19bf174,
    0xe49b69c1, 0xefbe4786, 0x0fc19dc6, 0x240ca1cc, 0x2de92c6f, 0x4a7484aa, 0x5cb0a9dc, 0x76f988da,
    0x983e5152, 0xa831c66d, 0xb00327c8, 0xbf597fc7, 0xc6e00bf3, 0xd5a79147, 0x06ca6351, 0x14292967,
    0x27b70a85, 0x2e1b2138, 0x4d2c6dfc, 0x53380d13, 0x650a7354, 0x766a0abb, 0x81c2c92e, 0x92722c85,
    0xa2bfe8a1, 0xa81a664b, 0xc24b8b70, 0xc76c51a3, 0xd192e819, 0xd6990624, 0xf40e3585, 0x106aa070,
    0x19a4c116, 0x1e376c08, 0x2748774c, 0x34b0bcb5, 0x391c0cb3, 0x4ed8aa4a, 0x5b9cca4f, 0x682e6ff3,
    0x748f82ee, 0x78a5636f, 0x84c87814, 0x8cc70208, 0x90befffa, 0xa4506ceb, 0xbef9a3f7, 0xc67178f2]

/-- The word turned right by `n` bits, for `n` from 1 to 31. -/
def rotate (x : UInt32) (n : UInt32) : UInt32 := (x >>> n) ||| (x <<< (32 - n))

/-- The zero bytes that bring a message of `n` bytes, its end mark and its eight length bytes to whole
blocks. -/
def fill (n : Nat) : Nat := (119 - n % 64) % 64

/-- Eight bytes of a number, most significant first. -/
def lengthBytes (n : Nat) : List UInt8 :=
  (List.range 8).map fun i => (n >>> (8 * (7 - i))).toUInt8

/-- A message with its end mark, zero bytes and length in bits. -/
def padded (message : ByteArray) : ByteArray :=
  message ++ ⟨(0x80 :: List.replicate (fill message.size) 0 ++ lengthBytes (8 * message.size)).toArray⟩

/-- The big-endian word at a position; bytes past the end count as zero. -/
def wordAt (bytes : ByteArray) (i : Nat) : UInt32 :=
  (List.range 4).foldl (fun w k => (w <<< 8) ||| ((bytes.data[i + k]?).getD 0).toUInt32) 0

/-- The next word of a schedule that holds the words before it. -/
def nextWord (w : Array UInt32) : UInt32 :=
  let n := w.size
  let back (k : Nat) : UInt32 := (w[n - k]?).getD 0
  let s0 := rotate (back 15) 7 ^^^ rotate (back 15) 18 ^^^ (back 15 >>> 3)
  let s1 := rotate (back 2) 17 ^^^ rotate (back 2) 19 ^^^ (back 2 >>> 10)
  back 16 + s0 + back 7 + s1

/-- The 64 words that the rounds of one block take, from the 16 words of the block. -/
def schedule (bytes : ByteArray) (start : Nat) : Array UInt32 :=
  let first := ((List.range 16).map fun i => wordAt bytes (start + 4 * i)).toArray
  (List.range 48).foldl (fun w _ => w.push (nextWord w)) first

/-- One round, with its constant `k` and its word `w`. -/
def round (s : State) (k w : UInt32) : State :=
  let s1 := rotate s.e 6 ^^^ rotate s.e 11 ^^^ rotate s.e 25
  let choice := (s.e &&& s.f) ^^^ ((~~~ s.e) &&& s.g)
  let t1 := s.h + s1 + choice + k + w
  let s0 := rotate s.a 2 ^^^ rotate s.a 13 ^^^ rotate s.a 22
  let majority := (s.a &&& s.b) ^^^ (s.a &&& s.c) ^^^ (s.b &&& s.c)
  { a := t1 + s0 + majority, b := s.a, c := s.b, d := s.c, e := s.d + t1, f := s.e, g := s.f,
    h := s.g }

/-- The state after the block at a position. -/
def block (bytes : ByteArray) (s : State) (start : Nat) : State :=
  s.add ((constants.zip (schedule bytes start).toList).foldl (fun t kw => round t kw.1 kw.2) s)

/-- The eight words of a message's digest. -/
def digest (message : ByteArray) : List UInt32 :=
  let bytes := padded message
  ((List.range (bytes.size / 64)).foldl (fun s i => block bytes s (64 * i)) State.initial).words

/-- A word as eight hexadecimal digits. -/
def hexWord (w : UInt32) : List Char :=
  (List.range 8).map fun i => Nat.digitChar (w.toNat >>> (4 * (7 - i)) % 16)

/-- The digest of a message as 64 lower-case hexadecimal digits. -/
def hex (message : ByteArray) : String := String.ofList ((digest message).flatMap hexWord)

end Sha256
end ScopeIndex
