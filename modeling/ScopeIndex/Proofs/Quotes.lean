import Mathlib
import ScopeIndex.Name
import ScopeIndex.Proofs.Utf8

/-!
# Taking the quotes off a string

The value of a string is its text without the first and the last character.  The text comes from
bytes that need not be well formed, so it is not plain that the value is the text of the bytes
between the quotes: a stretch that breaks off in front of the closing quote might take the quote
with it, or leave more replacement characters than it would without the quote.

It does neither.  A malformed stretch goes on as long as its bytes can still become a character,
and no byte below 0x80 continues one; so such a byte ends whatever is in front of it, and what is
in front of it is decoded as if nothing followed.

## Main definitions

* `Utf8.Malformed` — a malformed stretch, and how far it goes.
* `Utf8.Replaces` — the text of any bytes, with one replacement character for each such stretch.

## Main results

* `Utf8.read_eq_none` — what the reader takes for malformed is a malformed stretch.
* `Utf8.replaces_iff` — decoding gives the text that has one replacement character for each
  malformed stretch, and there is no other.
* `Utf8.decode_append_ascii` — bytes are decoded on their own up to a byte below 0x80.
* `Name.literalValue_quoted` — **the value of a string is the text between its quotes.**
-/

namespace ScopeIndex
namespace Utf8

variable {a b : UInt8} {as bs tail rest stretch : List UInt8} {cs : List Char} {lead : Lead}

/-! ### Malformed stretches -/

/-- Can some bytes still become a character? -/
def BeginsChar (bs : List UInt8) : Prop := ∃ c, bs <+: String.utf8EncodeChar c

/-- A malformed stretch with the bytes behind it. -/
structure Malformed (stretch rest : List UInt8) : Prop where
  nonempty : stretch ≠ []
  /-- No character stands there. -/
  broken : ∀ c, ¬ String.utf8EncodeChar c <+: stretch ++ rest
  /-- The stretch could have become a character, or it is a single byte. -/
  begun : BeginsChar stretch ∨ stretch.length = 1
  /-- Nothing longer could. -/
  longest : ∀ front, front <+: stretch ++ rest → BeginsChar front →
    front.length ≤ stretch.length

/-- The text of any bytes, with one replacement character for each malformed stretch. -/
inductive Replaces : List UInt8 → List Char → Prop
  | nil : Replaces [] []
  | char (c : Char) {bs : List UInt8} {cs : List Char} :
      Replaces bs cs → Replaces (String.utf8EncodeChar c ++ bs) (c :: cs)
  | malformed {stretch bs : List UInt8} {cs : List Char} :
      Malformed stretch bs → Replaces bs cs → Replaces (stretch ++ bs) (replacement :: cs)

/-- Two malformed stretches at one place are the same. -/
theorem Malformed.eq {stretch' rest' : List UInt8} (h : Malformed stretch rest)
    (h' : Malformed stretch' rest') (heq : stretch ++ rest = stretch' ++ rest') :
    stretch = stretch' ∧ rest = rest' := by
  have hle : ∀ {s r s' r'}, Malformed s r → Malformed s' r' → s ++ r = s' ++ r' →
      s.length ≤ s'.length := by
    intro s r s' r' hs hs' heq
    rcases hs.begun with hbegun | hone
    · exact hs'.longest s (heq ▸ List.prefix_append s r) hbegun
    · exact hone ▸ List.length_pos_iff.mpr hs'.nonempty
  exact List.append_inj heq (le_antisymm (hle h h' heq) (hle h' h heq.symm))

/-- The bytes that follow a first byte are none below 0x80. -/
theorem range_of_ofByte? (h : Lead.ofByte? b = some lead) {r : ByteRange} (hr : r ∈ lead.follow) :
    0x80 ≤ r.low ∧ r.low ≤ r.high ∧ r.high ≤ 0xBF := by
  unfold Lead.ofByte? at h
  simp only at h
  split_ifs at h <;> obtain rfl := Option.some.inj h <;>
    simp only [List.mem_cons, List.not_mem_nil, or_false, or_self] at hr <;>
    obtain rfl | rfl := hr <;> simp [ByteRange.tail]

/-- Every byte that is announced can be had. -/
theorem exists_following {rs : List ByteRange}
    (h : ∀ r ∈ rs, 0x80 ≤ r.low ∧ r.low ≤ r.high ∧ r.high ≤ 0xBF) :
    ∃ tail, List.Forall₂ (fun r b => r.has b = true) rs tail := by
  induction rs with
  | nil => exact ⟨[], .nil⟩
  | cons r rs ih =>
    obtain ⟨hr, hrs⟩ := List.forall_mem_cons.mp h
    obtain ⟨tail, htail⟩ := ih hrs
    obtain ⟨b, hb⟩ := exists_byte (n := r.low) (by omega)
    exact ⟨b :: tail, .cons (has_iff.mpr (by omega)) htail⟩

/-- Gathering that fails has taken one byte for each of the first ranges, and the next byte, if
there is one, is out of the next range. -/
theorem gather_eq_none {bits : Nat} {rs : List ByteRange} (h : gather bits rs bs = (none, rest)) :
    ∃ tail taken r left, bs = tail ++ rest ∧ rs = taken ++ r :: left ∧
      List.Forall₂ (fun r b => r.has b = true) taken tail ∧
      ∀ b more, rest = b :: more → r.has b = false := by
  fun_induction gather bits rs bs with
  | case1 bits bs => simp at h
  | case2 bits r rs =>
    obtain rfl : [] = rest := (Prod.mk.inj h).2
    exact ⟨[], [], r, rs, rfl, rfl, .nil, by simp⟩
  | case3 bits r rs b bs hb ih =>
    obtain ⟨tail, taken, r', left, rfl, rfl, htaken, hnext⟩ := ih h
    exact ⟨b :: tail, r :: taken, r', left, rfl, rfl, .cons hb htaken, hnext⟩
  | case4 bits r rs b bs hb =>
    obtain rfl : b :: bs = rest := (Prod.mk.inj h).2
    refine ⟨[], [], r, rs, rfl, rfl, .nil, ?_⟩
    intro b' more heq
    obtain ⟨rfl, -⟩ := List.cons.inj heq
    simpa using hb

/-- A first byte with those behind it that can still become a character. -/
theorem beginsChar_cons_iff : BeginsChar (b :: tail) ↔
    ∃ more code, Forms b (tail ++ more) code := by
  constructor
  · rintro ⟨c, more, hmore⟩
    have hread := (@read_eq_some_iff b (tail ++ more) [] c).mpr (by simpa using hmore)
    obtain ⟨tail', code, htail, hforms, -⟩ := read_eq_some_iff_forms.mp hread
    rw [List.append_nil] at htail
    exact ⟨more, code, htail ▸ hforms⟩
  · rintro ⟨more, code, hforms⟩
    exact ⟨Char.ofNat code, more, by rw [hforms.encodeChar, List.cons_append]⟩

/-- Bytes in the first ranges that are announced make a malformed stretch if no character stands
there and the next byte is out of its range. -/
theorem malformed_of_follow {taken left : List ByteRange} {r : ByteRange}
    (hlead : Lead.ofByte? b = some lead) (hfollow : lead.follow = taken ++ r :: left)
    (htaken : List.Forall₂ (fun r b => r.has b = true) taken tail)
    (hnext : ∀ x more, rest = x :: more → r.has x = false)
    (hbroken : ∀ c, ¬ String.utf8EncodeChar c <+: b :: tail ++ rest) :
    Malformed (b :: tail) rest where
  nonempty := by simp
  broken := hbroken
  begun := by
    obtain ⟨more, hmore⟩ := exists_following fun r' hr' =>
      range_of_ofByte? hlead (hfollow ▸ List.mem_append_right taken hr')
    exact .inl (beginsChar_cons_iff.mpr
      ⟨more, _, lead, hlead, hfollow ▸ List.rel_append htaken hmore, rfl⟩)
  longest := by
    -- a longer one would have the next byte in its range
    intro front hfront hbegins
    by_contra hlong
    obtain ⟨extra, rfl⟩ := List.prefix_of_prefix_length_le (List.prefix_append (b :: tail) rest)
      hfront (Nat.le_of_not_le hlong)
    obtain ⟨x, extra, rfl⟩ := List.exists_cons_of_ne_nil
      (fun hnil : extra = [] => hlong (by simp [hnil]))
    obtain ⟨rest', rfl⟩ := (List.prefix_append_right_inj _).mp hfront
    rw [List.cons_append, beginsChar_cons_iff] at hbegins
    obtain ⟨more, code, lead', hlead', hbytes, -⟩ := hbegins
    obtain rfl : lead = lead' := Option.some.inj (hlead.symm.trans hlead')
    rw [List.append_assoc] at hbytes
    have hdrop := List.forall₂_drop_append _ _ _ hbytes
    rw [hfollow, ← htaken.length_eq, List.drop_left] at hdrop
    cases hdrop with
    | cons hx _ => exact Bool.false_ne_true ((hnext x _ rfl).symm.trans hx)

/-- A byte that begins no character is a malformed stretch. -/
theorem malformed_of_ofByte?_eq_none (hlead : Lead.ofByte? b = none)
    (hbroken : ∀ c, ¬ String.utf8EncodeChar c <+: [b] ++ rest) : Malformed [b] rest where
  nonempty := by simp
  broken := hbroken
  begun := .inr rfl
  longest := by
    rintro (_ | ⟨b', front⟩) hfront hbegins
    · simp
    · obtain ⟨rfl, -⟩ := List.cons_prefix_cons.mp hfront
      obtain ⟨more, code, lead, hlead', -⟩ := beginsChar_cons_iff.mp hbegins
      rw [hlead] at hlead'
      cases hlead'

/-- What the reader takes for malformed is a malformed stretch. -/
theorem read_eq_none (h : read b bs = (none, rest)) :
    ∃ tail, bs = tail ++ rest ∧ Malformed (b :: tail) rest := by
  have hbroken : ∀ c, ¬ String.utf8EncodeChar c <+: b :: bs := by
    rintro c ⟨more, hmore⟩
    have hread := read_eq_some_iff.mpr hmore.symm
    rw [h] at hread
    cases hread
  unfold read at h
  cases hlead : Lead.ofByte? b with
  | none =>
    rw [hlead] at h
    obtain rfl : bs = rest := (Prod.mk.inj h).2
    exact ⟨[], rfl, malformed_of_ofByte?_eq_none hlead hbroken⟩
  | some lead =>
    rw [hlead] at h
    have hgather : gather lead.bits lead.follow bs = (none, rest) := by
      obtain ⟨hcode, hrest⟩ := Prod.mk.inj h
      exact Prod.ext (Option.map_eq_none_iff.mp hcode) hrest
    obtain ⟨tail, taken, r, left, rfl, hfollow, htaken, hnext⟩ := gather_eq_none hgather
    exact ⟨tail, rfl, malformed_of_follow hlead hfollow htaken hnext hbroken⟩

/-! ### Decoding with replacement -/

theorem decode_cons (b : UInt8) (bs : List UInt8) :
    decode (b :: bs) = (read b bs).1.getD replacement :: decode (read b bs).2 := by
  rw [decode, chunks_cons, List.map_cons, decode]

theorem replaces_decode (bs : List UInt8) : Replaces bs (decode bs) := by
  fun_induction chunks bs with
  | case1 => exact decode_nil ▸ .nil
  | case2 b bs ih =>
    rw [decode_cons]
    rcases hread : read b bs with ⟨c?, rest⟩
    rw [hread] at ih
    cases c? with
    | some c => exact read_eq_some_iff.mp hread ▸ .char c ih
    | none =>
      obtain ⟨tail, rfl, hmalformed⟩ := read_eq_none hread
      exact .malformed hmalformed ih

/-- Decoding gives the text that has one replacement character for each malformed stretch, and
there is no other. -/
theorem replaces_iff : Replaces bs cs ↔ decode bs = cs := by
  refine ⟨fun h => ?_, fun h => h ▸ replaces_decode bs⟩
  induction h with
  | nil => exact decode_nil
  | char c _ ih =>
    next bs cs _ =>
    obtain ⟨b, tail, hbytes⟩ := List.exists_cons_of_ne_nil (@String.utf8EncodeChar_ne_nil c)
    have hread : read b (tail ++ bs) = (some c, bs) := read_eq_some_iff.mpr (by rw [hbytes]; rfl)
    rw [hbytes, List.cons_append, decode_cons, hread, ih]
    rfl
  | malformed hmalformed _ ih =>
    next stretch bs cs _ =>
    obtain ⟨b, tail, rfl⟩ := List.exists_cons_of_ne_nil hmalformed.nonempty
    rcases hread : read b (tail ++ bs) with ⟨c?, rest⟩
    cases c? with
    | some c =>
      exact absurd ⟨rest, (read_eq_some_iff.mp hread).symm⟩ (hmalformed.broken c)
    | none =>
      obtain ⟨tail', htail, hmalformed'⟩ := read_eq_none hread
      obtain ⟨-, rfl⟩ := hmalformed.eq hmalformed' (congrArg (b :: ·) htail)
      rw [List.cons_append, decode_cons, hread, ih]
      rfl

/-- A text is decoded from its encoding. -/
theorem decode_encode (text : String) : decode (encode text) = text.toList := by
  rw [← replaces_iff, ← String.ofList_toList (s := text), encode_ofList, String.toList_ofList]
  induction text.toList with
  | nil => exact .nil
  | cons c cs ih => exact .char c ih

/-! ### Bytes below 0x80 -/

/-- A byte below 0x80 is in none of the ranges, so gathering stops at it. -/
theorem gather_append_ascii (hb : b.toNat ≤ 0x7F) (bs : List UInt8) (bits : Nat)
    (rs : List ByteRange) (hrs : ∀ r ∈ rs, 0x80 ≤ r.low) (as : List UInt8) :
    gather bits rs (as ++ b :: bs) =
      ((gather bits rs as).1, (gather bits rs as).2 ++ b :: bs) := by
  fun_induction gather bits rs as with
  | case1 bits as => rfl
  | case2 bits r rs =>
    have hout : r.has b = false := by
      have hlow := hrs r List.mem_cons_self
      rw [← Bool.not_eq_true, has_iff]
      omega
    simp [gather, hout]
  | case3 bits r rs a as ha ih =>
    rw [List.cons_append, gather, if_pos ha]
    exact ih fun r' hr' => hrs r' (List.mem_cons_of_mem r hr')
  | case4 bits r rs a as ha => rw [List.cons_append, gather, if_neg ha]

theorem read_append_ascii (hb : b.toNat ≤ 0x7F) (bs : List UInt8) (a : UInt8) (as : List UInt8) :
    read a (as ++ b :: bs) = ((read a as).1, (read a as).2 ++ b :: bs) := by
  unfold read
  cases hlead : Lead.ofByte? a with
  | none => rfl
  | some lead =>
    have hranges : ∀ r ∈ lead.follow, 0x80 ≤ r.low := fun r hr => (range_of_ofByte? hlead hr).1
    simp only [gather_append_ascii hb bs _ _ hranges]

/-- Bytes are decoded on their own up to a byte below 0x80. -/
theorem decode_append_ascii (hb : b.toNat ≤ 0x7F) (as bs : List UInt8) :
    decode (as ++ b :: bs) = decode as ++ Char.ofNat b.toNat :: decode bs := by
  fun_induction chunks as with
  | case1 =>
    rw [List.nil_append, decode_nil, List.nil_append, decode_cons, read_ascii hb]
    rfl
  | case2 a as ih =>
    rw [List.cons_append, decode_cons, read_append_ascii hb, ih, decode_cons]
    rfl

end Utf8

/-! ### Quotes -/

open Utf8

/-- **The value of a string is the text between its quotes.**  Whatever the bytes of a source, if a
node is a string of at least two bytes of which the first and the last are below 0x80, then its
value is what the bytes between them decode to, with one replacement character for each malformed
stretch of them; and it is any text that those bytes encode. -/
theorem Name.literalValue_quoted (source : Source) (l : Label) (htype : l.type = "string")
    {first last : UInt8} {between : List UInt8}
    (hbytes : source.slice l.span = first :: between ++ [last]) (hfirst : first.toNat ≤ 0x7F)
    (hlast : last.toNat ≤ 0x7F) :
    (literalValue source l).toList = decode between ∧
      Replaces between (literalValue source l).toList ∧
      ∀ text, between = encode text → literalValue source l = text := by
  have htext : (source.textOf l).toList =
      Char.ofNat first.toNat :: decode between ++ [Char.ofNat last.toNat] := by
    rw [Source.textOf, String.toList_ofList, hbytes, decode_append_ascii hlast, decode_nil,
      decode_cons, read_ascii hfirst]
    rfl
  have hvalue : (literalValue source l).toList = decode between := by
    simp [literalValue, htype, htext]
  refine ⟨hvalue, replaces_iff.mpr hvalue.symm, ?_⟩
  rintro text rfl
  exact String.toList_inj.mp (hvalue.trans (decode_encode text))

/-! ### A character that breaks off in front of the quote -/

namespace Sample

/-- Two strings in quotes: the first two bytes of a character of three, and a letter of two
bytes. -/
def quotes : Source := ⟨⟨#[0x22, 0xE2, 0x82, 0x22, 0x22, 0xC3, 0xA9, 0x22]⟩⟩

/-- The first of them. -/
def truncated : Label := { type := "string", span := ⟨0, 4⟩ }

/-- The second. -/
def letter : Label := { type := "string", span := ⟨4, 8⟩ }

theorem slice_truncated : quotes.slice truncated.span = 0x22 :: [0xE2, 0x82] ++ [0x22] := by decide

theorem slice_letter : quotes.slice letter.span = 0x22 :: [0xC3, 0xA9] ++ [0x22] := by decide

end Sample

theorem Name.literalValue_quoted_samples :
    (literalValue Sample.quotes Sample.truncated).toList = [replacement] ∧
      Replaces [0xE2, 0x82] (literalValue Sample.quotes Sample.truncated).toList ∧
      [0xC3, 0xA9] = encode "é" ∧ literalValue Sample.quotes Sample.letter = "é" := by
  obtain ⟨hdecode, hreplaces, -⟩ := literalValue_quoted Sample.quotes Sample.truncated rfl
    Sample.slice_truncated (by decide) (by decide)
  obtain ⟨-, -, htext⟩ := literalValue_quoted Sample.quotes Sample.letter rfl
    Sample.slice_letter (by decide) (by decide)
  have hone : decode [0xE2, 0x82] = [replacement] := by
    rw [decode_cons]
    exact congrArg (replacement :: ·) decode_nil
  have hencode : [0xC3, 0xA9] = encode "é" := by decide
  exact ⟨hdecode.trans hone, hreplaces, hencode, htext "é" hencode⟩

end ScopeIndex
