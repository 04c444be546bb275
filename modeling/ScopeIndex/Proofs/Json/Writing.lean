import Mathlib
import ScopeIndex.Json.Writer
import ScopeIndex.Proofs.Json.Spelling
import ScopeIndex.Proofs.Members

/-!
# What the writer writes is JSON

The writer has two layouts, and both of them spell the value that is written: blanks and
new lines stand only where the grammar allows them.  This is said of plain values, which are
all but the few that the grammar cannot tell from others.

A character above the first 65536 code points is written in two halves.  No half is the code
point of a character, so that only the halves of one character are ever joined.

## Main results

* `Json.spellsNumber_writeInt`, `Json.spells_writeText` — integers and texts.
* `Json.Layout.exists_enclose` — rows of items between brackets.
* `Json.Plain.spells_write` — plain values, in either layout.
* `Json.Plain.isAscii_write` — no other characters are written than the first 128.
-/

namespace ScopeIndex

/-! ### Halves of characters -/

namespace Utf16

/-- The units of a character. -/
def units (n : Nat) : List Nat :=
  if n < 0x10000 then [n] else [0xD800 + (n - 0x10000) / 0x400, 0xDC00 + (n - 0x10000) % 0x400]

theorem isValidChar_toNat (c : Char) : c.toNat.isValidChar := c.valid

theorem isFirstHalf_of_isValidChar {n : Nat} (h : n.isValidChar) : isFirstHalf n = false := by
  simp only [Nat.isValidChar] at h
  simp only [isFirstHalf, Bool.and_eq_false_iff, decide_eq_false_iff_not]
  omega

theorem join_cons_of_not_isFirstHalf {n : Nat} (h : isFirstHalf n = false) (us : List Nat) :
    join (n :: us) = n :: join us := by
  cases us with
  | nil => rfl
  | cons m us => rw [join, h, Bool.false_and, if_neg Bool.false_ne_true]

theorem join_halves {m n : Nat} (hm : isFirstHalf m = true) (hn : isSecondHalf n = true)
    (us : List Nat) : join (m :: n :: us) = whole m n :: join us := by
  rw [join, hm, hn, Bool.and_self, if_pos rfl]

/-- The units of a character are joined to it, whatever follows them. -/
theorem join_units_append {n : Nat} (h : n.isValidChar) (us : List Nat) :
    join (units n ++ us) = n :: join us := by
  rw [units]
  split
  · exact join_cons_of_not_isFirstHalf (isFirstHalf_of_isValidChar h) us
  · next hn =>
    simp only [Nat.isValidChar] at h
    have hfirst : isFirstHalf (0xD800 + (n - 0x10000) / 0x400) = true := by
      simp only [isFirstHalf, Bool.and_eq_true, decide_eq_true_eq]
      omega
    have hsecond : isSecondHalf (0xDC00 + (n - 0x10000) % 0x400) = true := by
      simp only [isSecondHalf, Bool.and_eq_true, decide_eq_true_eq]
      omega
    have hwhole : whole (0xD800 + (n - 0x10000) / 0x400) (0xDC00 + (n - 0x10000) % 0x400) = n := by
      unfold whole
      omega
    exact (join_halves hfirst hsecond us).trans (congrArg (· :: join us) hwhole)

/-- The code points of characters are what their units are joined to. -/
theorem join_flatMap_units (cs : List Char) :
    join (cs.flatMap fun c => units c.toNat) = cs.map Char.toNat := by
  induction cs with
  | nil => rfl
  | cons c cs ih =>
    rw [List.flatMap_cons, join_units_append (isValidChar_toNat c), ih, List.map_cons]

theorem isTorn_map_toNat (cs : List Char) : isTorn (cs.map Char.toNat) = false := by
  rw [isTorn, List.any_map, List.any_eq_false]
  intro c _
  simp only [Function.comp_apply, isValidChar_toNat, decide_true, Bool.not_true,
    Bool.false_eq_true, not_false_iff]

theorem chars_map_toNat (cs : List Char) : chars (cs.map Char.toNat) = cs := by
  rw [chars, List.map_map]
  conv_rhs => rw [← List.map_id cs]
  refine List.map_congr_left fun c _ => ?_
  exact (if_pos (isValidChar_toNat c)).trans (Char.ofNat_toNat c)

end Utf16

namespace Json

/-! ### Texts -/

theorem isHexDigit_digitChar {n : Nat} (h : n < 16) : IsHexDigit n (Nat.digitChar n) := by
  left
  interval_cases n <;> rfl

theorem spellsUnit_unitEscape {n : Nat} (h : n < 0x10000) : SpellsUnit n (unitEscape n) := by
  have hdigit : ∀ k, IsHexDigit (n >>> k % 16) (Nat.digitChar (n >>> k % 16)) := fun k =>
    isHexDigit_digitChar (Nat.mod_lt _ (by decide))
  have hn : ((n >>> 12 % 16 * 16 + n >>> 8 % 16) * 16 + n >>> 4 % 16) * 16 + n >>> 0 % 16 = n := by
    simp only [Nat.shiftRight_eq_div_pow]
    omega
  have hcoded := SpellsUnit.coded (hdigit 12) (hdigit 8) (hdigit 4) (hdigit 0)
  rw [hn] at hcoded
  exact hcoded

theorem SpellsUnit.spells {n : Nat} {u : List Char} (h : SpellsUnit n u) : SpellsUnits [n] u := by
  have hcons := SpellsUnits.cons h .nil
  rwa [List.append_nil] at hcons

theorem SpellsUnits.append {ms ns : List Nat} {cs ds : List Char} (hm : SpellsUnits ms cs)
    (hn : SpellsUnits ns ds) : SpellsUnits (ms ++ ns) (cs ++ ds) := by
  induction hm with
  | nil => exact hn
  | cons h _ ih =>
    rw [List.cons_append, List.append_assoc]
    exact .cons h ih

theorem spellsUnits_codeEscape {n : Nat} (h : n.isValidChar) :
    SpellsUnits (Utf16.units n) (codeEscape n) := by
  simp only [Nat.isValidChar] at h
  rw [Utf16.units, codeEscape]
  split
  · next hn => exact (spellsUnit_unitEscape hn).spells
  · exact .cons (spellsUnit_unitEscape (by omega)) (spellsUnit_unitEscape (by omega)).spells

/-- The characters that have a short form, by their code points. -/
theorem spellsUnits_short {c d : Char} (h : (c.toNat, d) ∈ shortForms) :
    SpellsUnits (Utf16.units c.toNat) ['\\', d] := by
  have hc : c.toNat < 0x10000 := by
    have hall : ∀ e ∈ shortForms, e.1 < 0x10000 := by decide
    exact hall _ h
  rw [Utf16.units, if_pos hc]
  exact (SpellsUnit.short h).spells

theorem spellsUnits_writeChar (c : Char) :
    SpellsUnits (Utf16.units c.toNat) (writeChar c) := by
  unfold writeChar
  split_ifs with hquote hback hn hr ht hb hf hplain
  · subst hquote
    exact spellsUnits_short (by decide)
  · subst hback
    exact spellsUnits_short (by decide)
  · subst hn
    exact spellsUnits_short (by decide)
  · subst hr
    exact spellsUnits_short (by decide)
  · subst ht
    exact spellsUnits_short (by decide)
  · exact spellsUnits_short (by rw [hb]; decide)
  · exact spellsUnits_short (by rw [hf]; decide)
  · rw [Utf16.units, if_pos (by omega)]
    exact (SpellsUnit.plain hplain.1 hquote hback).spells
  · exact spellsUnits_codeEscape (Utf16.isValidChar_toNat c)

theorem spellsUnits_flatMap_writeChar (cs : List Char) :
    SpellsUnits (cs.flatMap fun c => Utf16.units c.toNat) (cs.flatMap writeChar) := by
  induction cs with
  | nil => exact .nil
  | cons c cs ih => exact (spellsUnits_writeChar c).append ih

theorem ofPoints_map_toNat (s : String) : ofPoints (s.toList.map Char.toNat) = .text s := by
  rw [ofPoints, Utf16.isTorn_map_toNat, if_neg Bool.false_ne_true, Utf16.chars_map_toNat,
    String.ofList_toList]

theorem member_map_toNat (s : String) (v : Json) : member (s.toList.map Char.toNat) v = (s, v) := by
  rw [member, Utf16.isTorn_map_toNat, if_neg Bool.false_ne_true, Utf16.chars_map_toNat,
    String.ofList_toList]

theorem spells_writeText (s : String) : Spells (.value (.text s)) (writeText s) := by
  have h := Spells.text (spellsUnits_flatMap_writeChar s.toList)
  rw [Utf16.join_flatMap_units, ofPoints_map_toNat] at h
  exact h

/-! ### Integers -/

theorem ofDigits_toDigits (n : Nat) : ofDigits (Nat.toDigits 10 n) = n := by
  have h := Nat.ofDigitChars_ten_toDigits (n := n)
  simp only [Nat.ofDigitChars_eq_foldl, Nat.mul_comm 10] at h
  exact h

theorem head?_toDigits {n : Nat} (h : 0 < n) : (Nat.toDigits 10 n).head? ≠ some '0' := by
  induction n using Nat.strong_induction_on with
  | h n ih =>
    rcases Nat.lt_or_ge n 10 with hn | hn
    · rw [Nat.toDigits_of_lt_base hn, List.head?_cons, ne_eq, Option.some_inj,
        Nat.digitChar_eq_zero]
      omega
    · rw [Nat.toDigits_of_base_le (by decide) hn, List.head?_append_of_ne_nil _ Nat.toDigits_ne_nil]
      exact ih (n / 10) (by omega) (by omega)

theorem isWhole_toDigits (n : Nat) : IsWhole (Nat.toDigits 10 n) := by
  rcases Nat.eq_zero_or_pos n with rfl | hn
  · exact .inl rfl
  · refine .inr ⟨⟨Nat.toDigits_ne_nil, fun c hc => ?_⟩, head?_toDigits hn⟩
    exact Nat.isDigit_of_mem_toDigits (by decide) (by decide) hc

theorem spellsNumber_writeInt (n : Int) : SpellsNumber (.int n) (writeInt n) := by
  have h := SpellsNumber.mk (decide (n < 0)) (isWhole_toDigits n.natAbs) .absent .absent
  rw [List.append_nil, List.append_nil] at h
  have hvalue : numberValue (decide (n < 0)) (Nat.toDigits 10 n.natAbs) [] none = .int n := by
    simp only [numberValue, List.isEmpty_nil, Option.isNone_none, Bool.and_self, if_true,
      ofDigits_toDigits, Double.signed, decide_eq_true_eq]
    congr 1
    split <;> omega
  rw [hvalue] at h
  by_cases hn : n < 0
  · rw [writeInt, if_pos hn]
    rwa [decide_eq_true hn] at h
  · rw [writeInt, if_neg hn]
    rwa [decide_eq_false hn] at h

/-! ### Layout -/

theorem isGap_nil : IsGap [] := fun _ hc => absurd hc List.not_mem_nil

theorem isGap_blank : IsGap [' '] := fun _ hc => .inl (List.mem_singleton.mp hc)

namespace Layout

theorem isGap_gap (l : Layout) (level : Nat) : IsGap (l.gap level) := by
  cases l with
  | line => exact isGap_nil
  | indented width =>
    intro c hc
    rcases List.mem_cons.mp hc with rfl | hc
    · exact .inr (.inr (.inl rfl))
    · exact .inl (List.eq_of_mem_replicate hc)

theorem exists_between (l : Layout) (level : Nat) :
    ∃ gap, IsGap gap ∧ l.between level = ',' :: gap := by
  cases l with
  | line => exact ⟨[' '], isGap_blank, rfl⟩
  | indented width => exact ⟨_, isGap_gap (.indented width) level, rfl⟩

section Rows

-- arrays are rows of items and objects are rows of members
variable {α : Type} {one : α → Part} {row : List α → Part} {text : α → List Char}
  (last : ∀ {a cs}, Spells (one a) cs → Spells (row [a]) cs)
  (more : ∀ {a as cs ds}, Spells (one a) cs → Spells (row as) ds →
    Spells (row (a :: as)) (cs ++ ',' :: ds))

include last more

theorem spells_row (l : Layout) (level : Nat) {after : List Char} (hafter : IsGap after) (a : α)
    (as : List α) :
    (∀ b ∈ a :: as, ∀ before after, IsGap before → IsGap after →
      Spells (one b) (before ++ (text b ++ after))) → ∀ before, IsGap before →
    Spells (row (a :: as))
      (before ++ (text a ++ ((as.map text).flatMap (l.between level ++ ·) ++ after))) := by
  induction as generalizing a with
  | nil =>
    intro hone before hbefore
    exact last (hone a List.mem_cons_self _ _ hbefore hafter)
  | cons b as ih =>
    intro hone before hbefore
    obtain ⟨gap, hgap, hbetween⟩ := l.exists_between level
    have hfirst := hone a List.mem_cons_self before [] hbefore isGap_nil
    have hrest := ih b (fun c hc => hone c (List.mem_cons_of_mem _ hc)) gap hgap
    have hrow := more hfirst hrest
    simp only [List.append_assoc, List.nil_append] at hrow
    simpa only [List.map_cons, List.flatMap_cons, hbetween, List.cons_append,
      List.append_assoc] using hrow

/-- What stands between the brackets is a row, unless there is nothing to write. -/
theorem exists_enclose (l : Layout) (level : Nat) (opening closing : Char) {as : List α}
    (hone : ∀ a ∈ as, ∀ before after, IsGap before → IsGap after →
      Spells (one a) (before ++ (text a ++ after))) (has : as ≠ []) :
    ∃ cs, Spells (row as) cs ∧
      l.enclose level opening closing (as.map text) = opening :: (cs ++ [closing]) := by
  obtain ⟨a, as, rfl⟩ := List.exists_cons_of_ne_nil has
  refine ⟨_, spells_row last more l (level + 1) (l.isGap_gap level) a as hone _
    (l.isGap_gap (level + 1)), ?_⟩
  simp only [enclose, List.map_cons, List.append_assoc, List.cons_append]

end Rows

end Layout

end Json

/-! ### Values -/

namespace Json

/-- The values that the grammar can tell from all others: without numbers of double precision,
moments and torn texts, and with every name at most once in an object. -/
inductive Plain : Json → Prop
  | null : Plain .null
  | bool (b : Bool) : Plain (.bool b)
  | int (n : Int) : Plain (.int n)
  | text (s : String) : Plain (.text s)
  | list {vs : List Json} : (∀ v ∈ vs, Plain v) → Plain (.list vs)
  | object {ms : Members Json} : ms.keys.Nodup → (∀ m ∈ ms, Plain m.2) → Plain (.object ms)

theorem writeItems_eq_map (l : Layout) (level : Nat) (vs : List Json) :
    writeItems l level vs = vs.map (write l level) := by
  induction vs with
  | nil => rfl
  | cons v vs ih => exact congrArg (write l level v :: ·) ih

/-- The written form of a member. -/
def writeMember (l : Layout) (level : Nat) (m : String × Json) : List Char :=
  writeText m.1 ++ ':' :: ' ' :: write l level m.2

theorem writeMembers_eq_map (l : Layout) (level : Nat) (ms : Members Json) :
    writeMembers l level ms = ms.map (writeMember l level) := by
  induction ms with
  | nil => rfl
  | cons m ms ih => exact congrArg (writeMember l level m :: ·) ih

theorem write_list (l : Layout) (level : Nat) (vs : List Json) :
    write l level (.list vs) = l.enclose level '[' ']' (vs.map (write l (level + 1))) :=
  congrArg (l.enclose level '[' ']') (writeItems_eq_map l (level + 1) vs)

theorem write_object (l : Layout) (level : Nat) (ms : Members Json) :
    write l level (.object ms) =
      l.enclose level '\x7b' '\x7d' (ms.map (writeMember l (level + 1))) :=
  congrArg (l.enclose level '\x7b' '\x7d') (writeMembers_eq_map l (level + 1) ms)

theorem spells_writeMember {l : Layout} {level : Nat} {m : String × Json}
    (h : Spells (.value m.2) (write l level m.2)) {before after : List Char}
    (hbefore : IsGap before) (hafter : IsGap after) :
    Spells (.member m) (before ++ (writeMember l level m ++ after)) := by
  have hname := spellsUnits_flatMap_writeChar m.1.toList
  have hmember := Spells.member hbefore hname isGap_nil (.item isGap_blank h hafter)
  rw [Utf16.join_flatMap_units, member_map_toNat] at hmember
  simpa only [writeMember, writeText, List.cons_append, List.append_assoc, List.nil_append]
    using hmember

/-- **Both layouts spell the value that is written.** -/
theorem Plain.spells_write {v : Json} (h : Plain v) (l : Layout) (level : Nat) :
    Spells (.value v) (write l level v) := by
  induction h generalizing level with
  | null => exact .null
  | bool b => cases b <;> exact .bool _
  | int n => exact .number (spellsNumber_writeInt n)
  | text s => exact spells_writeText s
  | @list vs _ ih =>
    rw [write_list]
    by_cases hvs : vs = []
    · subst hvs
      exact .emptyList isGap_nil
    · obtain ⟨cs, hcs, henclose⟩ := Layout.exists_enclose Spells.lastItem Spells.moreItems
        l level '[' ']'
        (fun v hv _ _ hbefore hafter => .item hbefore (ih v hv (level + 1)) hafter) hvs
      rw [henclose]
      exact .list hcs
  | @object ms hkeys _ ih =>
    rw [write_object]
    by_cases hms : ms = []
    · subst hms
      exact .emptyObject isGap_nil
    · obtain ⟨cs, hcs, henclose⟩ := Layout.exists_enclose Spells.lastMember Spells.moreMembers
        l level '\x7b' '\x7d'
        (fun m hm _ _ hbefore hafter => spells_writeMember (ih m hm (level + 1)) hbefore hafter)
        hms
      rw [henclose]
      have hobject := Spells.object hcs
      rwa [Members.settle_of_nodup hkeys] at hobject

theorem Plain.isTextOf_ofList {v : Json} (h : Plain v) (l : Layout) :
    IsTextOf v (String.ofList (write l 0 v)) := by
  have hitem := Spells.item isGap_nil (h.spells_write l 0) isGap_nil
  rwa [List.nil_append, List.append_nil, ← String.toList_ofList (l := write l 0 v)] at hitem

/-! ### Characters -/

/-- No character outside the first 128 code points is among them. -/
def IsAscii (cs : List Char) : Prop := ∀ c ∈ cs, c.toNat < 0x80

instance (cs : List Char) : Decidable (IsAscii cs) :=
  List.decidableBAll (fun c : Char => c.toNat < 0x80) cs

theorem IsAscii.append {cs ds : List Char} (hcs : IsAscii cs) (hds : IsAscii ds) :
    IsAscii (cs ++ ds) := by
  intro c hc
  rcases List.mem_append.mp hc with hc | hc
  · exact hcs c hc
  · exact hds c hc

theorem IsAscii.cons {c : Char} {cs : List Char} (hc : c.toNat < 0x80) (hcs : IsAscii cs) :
    IsAscii (c :: cs) := List.forall_mem_cons.mpr ⟨hc, hcs⟩

theorem isAscii_flatMap {α : Type} {as : List α} {text : α → List Char}
    (h : ∀ a ∈ as, IsAscii (text a)) : IsAscii (as.flatMap text) := by
  intro c hc
  obtain ⟨a, ha, hc⟩ := List.mem_flatMap.mp hc
  exact h a ha c hc

theorem IsGap.isAscii {gap : List Char} (h : IsGap gap) : IsAscii gap := by
  intro c hc
  rcases h c hc with rfl | rfl | rfl | rfl <;> decide

theorem isAscii_unitEscape (n : Nat) : IsAscii (unitEscape n) := by
  refine .cons (by decide) (.cons (by decide) fun c hc => ?_)
  obtain ⟨i, -, rfl⟩ := List.mem_map.mp hc
  generalize hk : n >>> (4 * (3 - i)) % 16 = k
  have hk' : k < 16 := hk ▸ Nat.mod_lt _ (by decide)
  interval_cases k <;> decide

theorem isAscii_writeChar (c : Char) : IsAscii (writeChar c) := by
  unfold writeChar
  split_ifs with _ _ _ _ _ _ _ hplain
  iterate 7 decide
  · exact .cons (by omega) isGap_nil.isAscii
  · unfold codeEscape
    split
    · exact isAscii_unitEscape _
    · exact (isAscii_unitEscape _).append (isAscii_unitEscape _)

theorem isAscii_writeText (s : String) : IsAscii (writeText s) :=
  (IsAscii.cons (by decide) (isAscii_flatMap fun c _ => isAscii_writeChar c)).append
    (by decide)

theorem isAscii_writeInt (n : Int) : IsAscii (writeInt n) := by
  have hdigits : IsAscii (Nat.toDigits 10 n.natAbs) := by
    intro c hc
    have hdigit := Nat.isDigit_of_mem_toDigits (by decide) (by decide) hc
    simp only [Char.isDigit, Bool.and_eq_true, decide_eq_true_eq] at hdigit
    have hle : c.toNat ≤ 57 := UInt32.le_iff_toNat_le.mp hdigit.2
    omega
  unfold writeInt
  split
  · exact .cons (by decide) hdigits
  · exact hdigits

theorem Layout.isAscii_enclose (l : Layout) (level : Nat) {opening closing : Char}
    (hopening : opening.toNat < 0x80) (hclosing : closing.toNat < 0x80) {items : List (List Char)}
    (hitems : ∀ item ∈ items, IsAscii item) :
    IsAscii (l.enclose level opening closing items) := by
  have hend : IsAscii [closing] := .cons hclosing isGap_nil.isAscii
  cases items with
  | nil => exact .cons hopening hend
  | cons item items =>
    obtain ⟨gap, hgap, hbetween⟩ := l.exists_between (level + 1)
    rw [enclose, hbetween]
    refine ((((IsAscii.cons hopening (l.isGap_gap _).isAscii).append ?_).append ?_).append
      (l.isGap_gap _).isAscii).append hend
    · exact hitems item List.mem_cons_self
    · refine isAscii_flatMap fun other hother => ?_
      exact .append (.cons (by decide) hgap.isAscii) (hitems other (List.mem_cons_of_mem _ hother))

/-- Whatever characters the texts have, those of the written form are of the first 128. -/
theorem Plain.isAscii_write {v : Json} (h : Plain v) (l : Layout) (level : Nat) :
    IsAscii (write l level v) := by
  induction h generalizing level with
  | null =>
    show IsAscii "null".toList
    decide
  | bool b =>
    cases b with
    | true =>
      show IsAscii "true".toList
      decide
    | false =>
      show IsAscii "false".toList
      decide
  | int n => exact isAscii_writeInt n
  | text s => exact isAscii_writeText s
  | @list vs _ ih =>
    rw [write_list]
    refine l.isAscii_enclose level (by decide) (by decide) fun item hitem => ?_
    obtain ⟨v, hv, rfl⟩ := List.mem_map.mp hitem
    exact ih v hv _
  | @object ms _ _ ih =>
    rw [write_object]
    refine l.isAscii_enclose level (by decide) (by decide) fun item hitem => ?_
    obtain ⟨m, hm, rfl⟩ := List.mem_map.mp hitem
    exact (isAscii_writeText m.1).append (.cons (by decide) (.cons (by decide) (ih m hm _)))

end Json
end ScopeIndex
