import Mathlib
import ScopeIndex.Text.Utf8

/-!
# The reader of UTF-8 reads UTF-8

The reader works from a table: what a first byte announces, and from which range each byte is
that follows.  The encoding of a character is given by arithmetic on its code.  The two agree:
the ranges of the table are those that the arithmetic leaves, so a character is read from its
encoding and from no other bytes, and the same is true of a text.

## Main definitions

* `Utf8.Forms` — the code that some bytes stand for by the table.

## Main results

* `Utf8.Forms.encodeChar`, `Utf8.exists_forms` — these bytes are the encoding of the code.
* `Utf8.read_eq_some_iff` — a character is read from its encoding and from nothing else.
* `Utf8.decode?_eq_some_iff` — **a text is read from its encoding and from nothing else.**
-/

namespace ScopeIndex
namespace Utf8

variable {b x y z : UInt8} {bs tail rest : List UInt8} {c : Char} {code : Nat}

/-! ### Bytes in their ranges -/

/-- The code that the first byte of a character and those behind it stand for. -/
inductive Forms (b : UInt8) (tail : List UInt8) (code : Nat) : Prop
  | intro (lead : Lead) (ofByte : Lead.ofByte? b = some lead)
      (follow : List.Forall₂ (fun r b => r.has b = true) lead.follow tail)
      (bits : tail.foldl (fun bits b => bits * 64 + b.toNat % 64) lead.bits = code)

/-- Gathering takes one byte for each range. -/
theorem gather_eq_some_iff {bits : Nat} {rs : List ByteRange} :
    gather bits rs bs = (some code, rest) ↔
      ∃ tail, bs = tail ++ rest ∧ List.Forall₂ (fun r b => r.has b = true) rs tail ∧
        tail.foldl (fun bits b => bits * 64 + b.toNat % 64) bits = code := by
  fun_induction gather bits rs bs with
  | case1 bits bs => simp [and_comm]
  | case2 bits r rs => simp
  | case3 bits r rs b bs h ih =>
    rw [ih]
    constructor
    · rintro ⟨tail, rfl, hfollow, hcode⟩
      exact ⟨b :: tail, rfl, .cons h hfollow, hcode⟩
    · rintro ⟨tail, heq, hfollow, hcode⟩
      cases hfollow with
      | cons _ hfollow =>
        cases heq
        exact ⟨_, rfl, hfollow, hcode⟩
  | case4 bits r rs b bs h =>
    simp only [Prod.mk.injEq, reduceCtorEq, false_and, false_iff]
    rintro ⟨tail, heq, hfollow, -⟩
    cases hfollow with
    | cons hb _ =>
      cases heq
      exact h hb

theorem read_eq_some_iff_forms : read b bs = (some c, rest) ↔
    ∃ tail code, bs = tail ++ rest ∧ Forms b tail code ∧ Char.ofNat code = c := by
  unfold read
  cases hlead : Lead.ofByte? b with
  | none =>
    simp only [Prod.mk.injEq, reduceCtorEq, false_and, false_iff]
    rintro ⟨tail, code, -, ⟨lead, h, -, -⟩, -⟩
    simp [hlead] at h
  | some lead =>
    constructor
    · intro h
      simp only [Prod.mk.injEq, Option.map_eq_some_iff] at h
      obtain ⟨⟨code, hcode, rfl⟩, hrest⟩ := h
      obtain ⟨tail, hbs, hfollow, hbits⟩ := gather_eq_some_iff.mp (Prod.ext hcode hrest)
      exact ⟨tail, code, hbs, ⟨lead, hlead, hfollow, hbits⟩, rfl⟩
    · rintro ⟨tail, code, hbs, ⟨lead', h, hfollow, hbits⟩, rfl⟩
      cases hlead.symm.trans h
      simp only [gather_eq_some_iff.mpr ⟨tail, hbs, hfollow, hbits⟩, Option.map_some]

/-! ### Encodings by the number of bytes -/

theorem toNat_val_ofNat (h : code.isValidChar) : (Char.ofNat code).val.toNat = code := by
  rw [Char.ofNat, dif_pos h]
  simp [Char.ofNatAux]

theorem ofNat_eq {n : Nat} (h : b.toNat = n) : UInt8.ofNat n = b := by
  rw [← h, UInt8.ofNat_toNat]

theorem encodeChar_one (hb : b.toNat = code) (h : code ≤ 0x7F) :
    String.utf8EncodeChar (Char.ofNat code) = [b] := by
  rw [String.utf8EncodeChar, toNat_val_ofNat (.inl (by omega)), if_pos h, ofNat_eq hb]

theorem encodeChar_two (hb : b.toNat = code / 64 + 0xC0) (hx : x.toNat = code % 64 + 0x80)
    (h : 0x80 ≤ code) (h' : code ≤ 0x7FF) :
    String.utf8EncodeChar (Char.ofNat code) = [b, x] := by
  rw [String.utf8EncodeChar, toNat_val_ofNat (.inl (by omega)), if_neg (by omega), if_pos h',
    ofNat_eq (b := b) (by omega), ofNat_eq (b := x) (by omega)]

theorem encodeChar_three (hb : b.toNat = code / 4096 + 0xE0) (hx : x.toNat = code / 64 % 64 + 0x80)
    (hy : y.toNat = code % 64 + 0x80) (h : 0x800 ≤ code) (h' : code ≤ 0xFFFF)
    (hvalid : code.isValidChar) :
    String.utf8EncodeChar (Char.ofNat code) = [b, x, y] := by
  rw [String.utf8EncodeChar, toNat_val_ofNat hvalid, if_neg (by omega), if_neg (by omega),
    if_pos h', ofNat_eq (b := b) (by omega), ofNat_eq (b := x) (by omega),
    ofNat_eq (b := y) (by omega)]

theorem encodeChar_four (hb : b.toNat = code / 262144 + 0xF0)
    (hx : x.toNat = code / 4096 % 64 + 0x80) (hy : y.toNat = code / 64 % 64 + 0x80)
    (hz : z.toNat = code % 64 + 0x80) (h : 0x10000 ≤ code) (h' : code ≤ 0x10FFFF) :
    String.utf8EncodeChar (Char.ofNat code) = [b, x, y, z] := by
  rw [String.utf8EncodeChar, toNat_val_ofNat (.inr ⟨by omega, by omega⟩), if_neg (by omega),
    if_neg (by omega), if_neg (by omega), ofNat_eq (b := b) (by omega),
    ofNat_eq (b := x) (by omega), ofNat_eq (b := y) (by omega), ofNat_eq (b := z) (by omega)]

/-! ### First bytes -/

/-- The bytes that may stand behind the first byte of a long character. -/
def second (b : UInt8) : ByteRange :=
  if b.toNat = 0xE0 then ⟨0xA0, 0xBF⟩
  else if b.toNat = 0xED then ⟨0x80, 0x9F⟩
  else if b.toNat = 0xF0 then ⟨0x90, 0xBF⟩
  else if b.toNat = 0xF4 then ⟨0x80, 0x8F⟩
  else .tail

theorem ofByte?_one (h : b.toNat ≤ 0x7F) : Lead.ofByte? b = some ⟨b.toNat, []⟩ := if_pos h

theorem ofByte?_two (h : 0xC2 ≤ b.toNat) (h' : b.toNat ≤ 0xDF) :
    Lead.ofByte? b = some ⟨b.toNat - 0xC0, [.tail]⟩ := by
  simp only [Lead.ofByte?]
  rw [if_neg (by omega), if_neg (by omega), if_pos h']

theorem ofByte?_three (h : 0xE0 ≤ b.toNat) (h' : b.toNat ≤ 0xEF) :
    Lead.ofByte? b = some ⟨b.toNat - 0xE0, [second b, .tail]⟩ := by
  simp only [Lead.ofByte?, second]
  rw [if_neg (by omega), if_neg (by omega), if_neg (by omega)]
  by_cases hlow : b.toNat = 0xE0
  · rw [if_pos hlow, if_pos hlow, hlow]
  rw [if_neg hlow, if_neg hlow]
  by_cases hhigh : b.toNat = 0xED
  · rw [if_pos hhigh, if_pos hhigh, hhigh]
  rw [if_neg hhigh, if_neg hhigh, if_pos h', if_neg (by omega), if_neg (by omega)]

theorem ofByte?_four (h : 0xF0 ≤ b.toNat) (h' : b.toNat ≤ 0xF4) :
    Lead.ofByte? b = some ⟨b.toNat - 0xF0, [second b, .tail, .tail]⟩ := by
  have hE0 : ¬ b.toNat = 0xE0 := by omega
  have hED : ¬ b.toNat = 0xED := by omega
  simp only [Lead.ofByte?, second]
  rw [if_neg (by omega), if_neg (by omega), if_neg (by omega), if_neg hE0, if_neg hED, if_neg hE0,
    if_neg hED, if_neg (by omega)]
  by_cases hlow : b.toNat = 0xF0
  · rw [if_pos hlow, if_pos hlow, hlow]
  rw [if_neg hlow, if_neg hlow]
  by_cases hhigh : b.toNat = 0xF4
  · rw [if_neg (by omega), if_pos hhigh, if_pos hhigh, hhigh]
  · rw [if_pos (by omega), if_neg hhigh]

theorem ofByte?_none (h : ¬ b.toNat ≤ 0x7F) (h' : b.toNat < 0xC2 ∨ 0xF4 < b.toNat) :
    Lead.ofByte? b = none := by
  simp only [Lead.ofByte?]
  obtain h' | h' := h'
  · rw [if_neg h, if_pos h']
  · rw [if_neg h, if_neg (by omega), if_neg (by omega), if_neg (by omega), if_neg (by omega),
      if_neg (by omega), if_neg (by omega), if_neg (by omega), if_neg (by omega)]

theorem has_iff {r : ByteRange} : r.has b = true ↔ r.low ≤ b.toNat ∧ b.toNat ≤ r.high := by
  simp [ByteRange.has]

theorem has_tail : ByteRange.tail.has x = true ↔ 0x80 ≤ x.toNat ∧ x.toNat ≤ 0xBF := has_iff

/-- The narrower second ranges keep out overlong forms, surrogates and numbers above the last code
point. -/
theorem has_second : (second b).has x = true ↔ 0x80 ≤ x.toNat ∧ x.toNat ≤ 0xBF ∧
    (b.toNat = 0xE0 → 0xA0 ≤ x.toNat) ∧ (b.toNat = 0xED → x.toNat ≤ 0x9F) ∧
    (b.toNat = 0xF0 → 0x90 ≤ x.toNat) ∧ (b.toNat = 0xF4 → x.toNat ≤ 0x8F) := by
  rw [has_iff, second]
  split_ifs <;> simp only [ByteRange.tail] <;> omega

/-! ### Characters -/

/-- What the reader takes for a character is its encoding. -/
theorem Forms.encodeChar (h : Forms b tail code) :
    String.utf8EncodeChar (Char.ofNat code) = b :: tail := by
  obtain ⟨lead, hlead, hfollow, hcode⟩ := h
  by_cases hone : b.toNat ≤ 0x7F
  · rw [ofByte?_one hone] at hlead
    obtain rfl := Option.some.inj hlead
    cases hfollow
    exact encodeChar_one hcode (hcode ▸ hone)
  by_cases hnone : b.toNat < 0xC2 ∨ 0xF4 < b.toNat
  · rw [ofByte?_none hone hnone] at hlead
    cases hlead
  by_cases htwo : b.toNat ≤ 0xDF
  · rw [ofByte?_two (by omega) htwo] at hlead
    obtain rfl := Option.some.inj hlead
    obtain - | ⟨hx, - | -⟩ := hfollow
    rw [has_tail] at hx
    simp only [List.foldl_cons, List.foldl_nil] at hcode
    exact encodeChar_two (by omega) (by omega) (by omega) (by omega)
  by_cases hthree : b.toNat ≤ 0xEF
  · rw [ofByte?_three (by omega) hthree] at hlead
    obtain rfl := Option.some.inj hlead
    obtain - | ⟨hx, - | ⟨hy, - | -⟩⟩ := hfollow
    rw [has_second] at hx
    rw [has_tail] at hy
    simp only [List.foldl_cons, List.foldl_nil] at hcode
    have hvalid : code.isValidChar := by
      unfold Nat.isValidChar
      omega
    exact encodeChar_three (by omega) (by omega) (by omega) (by omega) (by omega) hvalid
  · rw [ofByte?_four (by omega) (by omega)] at hlead
    obtain rfl := Option.some.inj hlead
    obtain - | ⟨hx, - | ⟨hy, - | ⟨hz, - | -⟩⟩⟩ := hfollow
    rw [has_second] at hx
    rw [has_tail] at hy hz
    simp only [List.foldl_cons, List.foldl_nil] at hcode
    exact encodeChar_four (by omega) (by omega) (by omega) (by omega) (by omega) (by omega)

theorem exists_byte {n : Nat} (h : n < 256) : ∃ b : UInt8, b.toNat = n :=
  ⟨UInt8.ofNat n, by rw [UInt8.toNat_ofNat', Nat.mod_eq_of_lt h]⟩

/-- The encoding of a character is what the reader takes for it. -/
theorem exists_forms (h : code.isValidChar) :
    ∃ b tail, String.utf8EncodeChar (Char.ofNat code) = b :: tail ∧ Forms b tail code := by
  suffices hforms : ∃ b tail, Forms b tail code by
    obtain ⟨b, tail, hforms⟩ := hforms
    exact ⟨b, tail, hforms.encodeChar, hforms⟩
  unfold Nat.isValidChar at h
  by_cases hone : code ≤ 0x7F
  · obtain ⟨b, hb⟩ := exists_byte (n := code) (by omega)
    exact ⟨b, [], _, ofByte?_one (by omega), .nil, hb⟩
  obtain ⟨x, hx⟩ := exists_byte (n := code % 64 + 0x80) (by omega)
  by_cases htwo : code ≤ 0x7FF
  · obtain ⟨b, hb⟩ := exists_byte (n := code / 64 + 0xC0) (by omega)
    refine ⟨b, [x], _, ofByte?_two (by omega) (by omega), .cons (has_tail.mpr (by omega)) .nil, ?_⟩
    simp only [List.foldl_cons, List.foldl_nil]
    omega
  obtain ⟨y, hy⟩ := exists_byte (n := code / 64 % 64 + 0x80) (by omega)
  by_cases hthree : code ≤ 0xFFFF
  · obtain ⟨b, hb⟩ := exists_byte (n := code / 4096 + 0xE0) (by omega)
    refine ⟨b, [y, x], _, ofByte?_three (by omega) (by omega),
      .cons (has_second.mpr (by omega)) (.cons (has_tail.mpr (by omega)) .nil), ?_⟩
    simp only [List.foldl_cons, List.foldl_nil]
    omega
  · obtain ⟨z, hz⟩ := exists_byte (n := code / 4096 % 64 + 0x80) (by omega)
    obtain ⟨b, hb⟩ := exists_byte (n := code / 262144 + 0xF0) (by omega)
    refine ⟨b, [z, y, x], _, ofByte?_four (by omega) (by omega), .cons (has_second.mpr (by omega))
      (.cons (has_tail.mpr (by omega)) (.cons (has_tail.mpr (by omega)) .nil)), ?_⟩
    simp only [List.foldl_cons, List.foldl_nil]
    omega

/-- A character is read from its encoding and from nothing else. -/
theorem read_eq_some_iff :
    read b bs = (some c, rest) ↔ b :: bs = String.utf8EncodeChar c ++ rest := by
  rw [read_eq_some_iff_forms]
  constructor
  · rintro ⟨tail, code, rfl, hforms, rfl⟩
    rw [hforms.encodeChar, List.cons_append]
  · intro h
    obtain ⟨b', tail, hencode, hforms⟩ := exists_forms c.valid
    rw [show Char.ofNat c.val.toNat = c from c.ofNat_toNat] at hencode
    rw [hencode, List.cons_append] at h
    obtain ⟨rfl, rfl⟩ := List.cons.inj h
    exact ⟨tail, _, rfl, hforms, c.ofNat_toNat⟩

/-! ### Texts -/

theorem encode_ofList (cs : List Char) :
    encode (String.ofList cs) = cs.flatMap String.utf8EncodeChar := by
  simp [encode, String.toUTF8, List.utf8Encode]

theorem decode?_cons_eq_some_iff {text : List Char} : decode? (b :: bs) = some text ↔
    ∃ c cs, text = c :: cs ∧ (read b bs).1 = some c ∧ decode? (read b bs).2 = some cs := by
  rw [decode?, chunks_cons, List.mapM_cons]
  cases (read b bs).1 with
  | none => simp
  | some d =>
    change ((chunks (read b bs).2).mapM id).bind (fun cs => some (d :: cs)) = some text ↔ _
    rw [← decode?, Option.bind_eq_some_iff]
    constructor
    · rintro ⟨cs, hcs, htext⟩
      exact ⟨d, cs, (Option.some.inj htext).symm, rfl, hcs⟩
    · rintro ⟨c, cs, rfl, hd, hcs⟩
      cases hd
      exact ⟨cs, hcs, rfl⟩

theorem decode?_eq_some_iff_flatMap {cs : List Char} :
    decode? bs = some cs ↔ bs = cs.flatMap String.utf8EncodeChar := by
  induction cs generalizing bs with
  | nil =>
    cases bs with
    | nil => simp [decode?]
    | cons b bs => simp [decode?_cons_eq_some_iff]
  | cons c cs ih =>
    rw [List.flatMap_cons]
    cases bs with
    | nil =>
      have hne : ([] : List UInt8) ≠ String.utf8EncodeChar c ++ cs.flatMap String.utf8EncodeChar :=
        fun h => String.utf8EncodeChar_ne_nil (List.append_eq_nil_iff.mp h.symm).1
      simp [decode?, hne]
    | cons b bs =>
      rw [← read_eq_some_iff, decode?_cons_eq_some_iff, Prod.ext_iff, ← ih]
      simp

/-- **A text is read from its encoding and from nothing else.** -/
theorem decode?_eq_some_iff {text : String} :
    decode? bs = some text.toList ↔ bs = encode text := by
  rw [decode?_eq_some_iff_flatMap, ← encode_ofList, String.ofList_toList]

end Utf8
end ScopeIndex
