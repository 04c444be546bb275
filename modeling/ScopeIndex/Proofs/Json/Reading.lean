import Mathlib
import ScopeIndex.Proofs.Json.Spelling

/-!
# The reader reads every JSON text

The reader takes a value off the front of its input, and so what is shown of it is about a
spelling with something behind it.  Only a number could be taken too far, when digits, a
point or an exponent stand behind it, and none of them does behind a value in a text.

## Main results

* `Json.readUnits_of_spells`, `Json.readNumber_of_spells` — texts and numbers.
* `Json.Spells.reads` — values, by induction on the grammar.
* `Json.read?_of_isTextOf` — a whole text.
-/

namespace ScopeIndex
namespace Json

/-! ### Blanks -/

theorem skipBlank_append {gap : List Char} (h : IsGap gap) (cs : List Char) :
    skipBlank (gap ++ cs) = skipBlank cs := by
  refine List.dropWhile_append_of_pos fun c hc => ?_
  rcases h c hc with rfl | rfl | rfl | rfl <;> rfl

theorem skipBlank_cons {c : Char} (h : ¬ IsBlank c) (cs : List Char) :
    skipBlank (c :: cs) = c :: cs := by
  refine List.dropWhile_cons_of_neg ?_
  simpa [or_assoc] using h

theorem skipBlank_append_cons {gap : List Char} (hgap : IsGap gap) {c : Char} (h : ¬ IsBlank c)
    (cs : List Char) : skipBlank (gap ++ c :: cs) = c :: cs := by
  rw [skipBlank_append hgap, skipBlank_cons h]

theorem skipBlank_skipBlank (cs : List Char) : skipBlank (skipBlank cs) = skipBlank cs := by
  apply List.dropWhile_idempotent

/-! ### Texts -/

theorem hexValue?_of_isHexDigit {n : Nat} {c : Char} (h : IsHexDigit n c) :
    hexValue? c = some n := by
  have hall : ∀ n < 16, ("0123456789abcdef".toList[n]?).bind hexValue? = some n ∧
      ("0123456789ABCDEF".toList[n]?).bind hexValue? = some n := by decide
  have hn : n < 16 := by
    rcases h with h | h
    · exact (List.getElem?_eq_some_iff.mp h).1
    · exact (List.getElem?_eq_some_iff.mp h).1
  obtain ⟨hsmall, hcapital⟩ := hall n hn
  rcases h with h | h
  · rwa [h] at hsmall
  · rwa [h] at hcapital

theorem shortEscape?_of_mem {n : Nat} {c : Char} (h : (n, c) ∈ shortForms) :
    c ≠ 'u' ∧ (shortEscape? c).map Char.toNat = some n := by
  have hall : ∀ e ∈ shortForms, e.2 ≠ 'u' ∧ (shortEscape? e.2).map Char.toNat = some e.1 := by
    decide
  exact hall (n, c) h

theorem readUnits_unit {n : Nat} {u : List Char} (h : SpellsUnit n u) (cs : List Char) :
    readUnits (u ++ cs) = (readUnits cs).map fun r => (n :: r.1, r.2) := by
  cases h with
  | @plain c hlow hquote hback =>
    have hlow' : ¬ (c.toNat < 0x20 ∨ c = '\\') := not_or.mpr ⟨Nat.not_lt.mpr hlow, hback⟩
    rw [List.singleton_append, readUnits, if_neg hquote, if_neg hlow']
    · cases readUnits cs <;> rfl
    · intro _ _ _ _ _ heq
      exact absurd heq hback
    · intro _ _ heq
      exact absurd heq hback
  | @short n c hmem =>
    obtain ⟨hu, hshort⟩ := shortEscape?_of_mem hmem
    obtain ⟨e, he, rfl⟩ := Option.map_eq_some_iff.mp hshort
    rw [List.cons_append, List.singleton_append, readUnits, he]
    · cases readUnits cs <;> rfl
    · intro _ _ _ _ _ heq
      exact absurd heq hu
  | @coded i j k l a b c d ha hb hc hd =>
    have hhex : hexValue4? a b c d = some (((i * 16 + j) * 16 + k) * 16 + l) := by
      rw [hexValue4?, hexValue?_of_isHexDigit ha, hexValue?_of_isHexDigit hb,
        hexValue?_of_isHexDigit hc, hexValue?_of_isHexDigit hd]
      rfl
    simp only [List.cons_append, List.nil_append]
    rw [readUnits, hhex]
    cases readUnits cs <;> rfl

theorem readUnits_of_spells {ns : List Nat} {cs : List Char} (h : SpellsUnits ns cs)
    (rest : List Char) : readUnits (cs ++ '\x22' :: rest) = some (ns, rest) := by
  induction h with
  | nil => simp [readUnits]
  | cons hu _ ih => rw [List.append_assoc, readUnits_unit hu, ih, Option.map_some]

theorem readText_of_spells {ns : List Nat} {cs : List Char} (h : SpellsUnits ns cs)
    (rest : List Char) : readText (cs ++ '\x22' :: rest) = some (Utf16.join ns, rest) := by
  rw [readText, readUnits_of_spells h, Option.map_some]

/-! ### Numbers -/

/-- No number can go on with the rest. -/
def Stops (rest : List Char) : Prop :=
  ∀ c ∈ rest.head?, c.isDigit = false ∧ c ≠ '.' ∧ c ≠ 'e' ∧ c ≠ 'E'

theorem spanDigits_append {ds rest : List Char} (hds : ∀ c ∈ ds, c.isDigit = true)
    (hrest : ∀ c ∈ rest.head?, c.isDigit = false) : spanDigits (ds ++ rest) = (ds, rest) := by
  have hnone : rest.takeWhile Char.isDigit = [] ∧ rest.dropWhile Char.isDigit = rest := by
    cases rest with
    | nil => exact ⟨rfl, rfl⟩
    | cons c rest =>
      have hc : ¬ c.isDigit = true := by simpa using hrest c rfl
      exact ⟨List.takeWhile_cons_of_neg hc, List.dropWhile_cons_of_neg hc⟩
  rw [spanDigits, List.takeWhile_append_of_pos hds, List.dropWhile_append_of_pos hds, hnone.1,
    hnone.2, List.append_nil]

/-- Digits do not start with anything else. -/
theorem IsDigits.append_ne_cons {ds : List Char} (h : IsDigits ds) {c : Char}
    (hc : c.isDigit = false) (rest cs : List Char) : ds ++ rest ≠ c :: cs := by
  obtain ⟨d, ds, rfl⟩ := List.exists_cons_of_ne_nil h.1
  intro heq
  have hd := h.2 d List.mem_cons_self
  rw [(List.cons.inj heq).1, hc] at hd
  cases hd

theorem IsWhole.isDigits {ds : List Char} (h : IsWhole ds) : IsDigits ds := by
  rcases h with rfl | ⟨h, -⟩
  · exact ⟨by simp, by simp⟩
  · exact h

theorem readWhole_of_spells {ds rest : List Char} (h : IsWhole ds)
    (hrest : ∀ c ∈ rest.head?, c.isDigit = false) : readWhole (ds ++ rest) = some (ds, rest) := by
  rcases h with rfl | ⟨⟨hne, hds⟩, hzero⟩
  · rfl
  · obtain ⟨d, ds, rfl⟩ := List.exists_cons_of_ne_nil hne
    have hd : d ≠ '0' := fun heq => hzero (by rw [heq]; rfl)
    rw [List.cons_append, readWhole, ← List.cons_append, spanDigits_append hds hrest]
    · rfl
    · intro _ heq
      exact hd (List.cons.inj heq).1

theorem readFraction_of_spells {fraction fs rest : List Char} (h : SpellsFraction fraction fs)
    (hrest : ∀ c ∈ rest.head?, c.isDigit = false ∧ c ≠ '.') :
    readFraction (fs ++ rest) = (fraction, rest) := by
  cases h with
  | absent =>
    rw [List.nil_append, readFraction]
    intro cs heq
    exact (hrest '.' (by rw [heq]; rfl)).2 rfl
  | present hds =>
    have hempty : fraction.isEmpty = false := by simpa using hds.1
    rw [List.cons_append, readFraction, spanDigits_append hds.2 fun c hc => (hrest c hc).1]
    simp [hempty]

theorem readExponentDigits_of_spells {negative : Bool} {sign ds rest : List Char}
    (hsign : (negative, sign) ∈ exponentSigns) (hds : IsDigits ds)
    (hrest : ∀ c ∈ rest.head?, c.isDigit = false) :
    readExponentDigits (sign ++ (ds ++ rest)) =
      some (Double.signed negative (ofDigits ds), rest) := by
  have hempty : ds.isEmpty = false := by simpa using hds.1
  have hspan := spanDigits_append hds.2 hrest
  simp only [exponentSigns, List.mem_cons, Prod.mk.injEq, List.not_mem_nil, or_false] at hsign
  rcases hsign with ⟨rfl, rfl⟩ | ⟨rfl, rfl⟩ | ⟨rfl, rfl⟩
  · rw [List.nil_append, readExponentDigits]
    · simp [hspan, hempty, Double.signed]
    · exact fun r => hds.append_ne_cons rfl rest r
    · exact fun r => hds.append_ne_cons rfl rest r
  · simp [readExponentDigits, hspan, hempty, Double.signed]
  · simp [readExponentDigits, hspan, hempty, Double.signed]

theorem readExponent_of_spells {exponent : Option Int} {es rest : List Char}
    (h : SpellsExponent exponent es)
    (hrest : ∀ c ∈ rest.head?, c.isDigit = false ∧ c ≠ 'e' ∧ c ≠ 'E') :
    readExponent (es ++ rest) = (exponent, rest) := by
  cases h with
  | absent =>
    rw [List.nil_append, readExponent]
    · intro cs heq
      exact (hrest 'e' (by rw [heq]; rfl)).2.1 rfl
    · intro cs heq
      exact (hrest 'E' (by rw [heq]; rfl)).2.2 rfl
  | @present mark negative sign ds hmark hsign hds =>
    have hdigits := readExponentDigits_of_spells hsign hds fun c hc => (hrest c hc).1
    rcases hmark with rfl | rfl
    · rw [List.cons_append, List.append_assoc, readExponent, hdigits]
    · rw [List.cons_append, List.append_assoc, readExponent, hdigits]

/-- What follows the whole part of a number cannot be taken for more of it. -/
theorem head?_exponent {exponent : Option Int} {es rest : List Char}
    (h : SpellsExponent exponent es) (hrest : Stops rest) :
    ∀ c ∈ (es ++ rest).head?, c.isDigit = false ∧ c ≠ '.' := by
  cases h with
  | absent => exact fun c hc => ⟨(hrest c hc).1, (hrest c hc).2.1⟩
  | present hmark _ _ =>
    intro c hc
    obtain rfl := Option.some.inj hc
    rcases hmark with rfl | rfl <;> decide

theorem head?_fraction {fraction fs rest : List Char} (h : SpellsFraction fraction fs)
    (hrest : ∀ c ∈ rest.head?, c.isDigit = false ∧ c ≠ '.') :
    ∀ c ∈ (fs ++ rest).head?, c.isDigit = false := by
  cases h with
  | absent => exact fun c hc => (hrest c hc).1
  | present _ =>
    intro c hc
    obtain rfl := Option.some.inj hc
    rfl

theorem readNumber_of_spells {v : Json} {cs rest : List Char} (h : SpellsNumber v cs)
    (hrest : Stops rest) : readNumber {} (cs ++ rest) = .ok (v, rest) := by
  obtain @⟨negative, whole, fraction, fs, es, exponent, hwhole, hfraction, hexponent⟩ := h
  have hexp := head?_exponent hexponent hrest
  have hbody : ∀ r, whole ++ (fs ++ (es ++ rest)) ≠ '-' :: r := fun r =>
    hwhole.isDigits.append_ne_cons rfl _ r
  have hread := readWhole_of_spells hwhole (head?_fraction hfraction hexp)
  have hfrac := readFraction_of_spells hfraction hexp
  have hexpo := readExponent_of_spells hexponent fun c hc =>
    ⟨(hrest c hc).1, (hrest c hc).2.2.1, (hrest c hc).2.2.2⟩
  simp only [List.append_assoc]
  unfold readNumber
  cases negative with
  | true =>
    simp only [minus, if_true, List.cons_append, List.nil_append, hread, ReadFlaw.orMalformed,
      bind, Except.bind, hfrac, hexpo, numberValue]
    split <;> rfl
  | false =>
    rw [minus, if_neg Bool.false_ne_true, List.nil_append]
    split
    next negative body hsign =>
    -- the whole part is not taken for a sign
    split at hsign
    · next r heq => exact absurd heq (hbody r)
    · cases hsign
      simp only [hread, ReadFlaw.orMalformed, bind, Except.bind, hfrac, hexpo, numberValue]
      split <;> rfl

/-! ### How values start -/

/-- A word starts with neither a digit nor a sign and a digit. -/
theorem exists_cons_of_mem_words : ∀ e ∈ words,
    (∃ c w, e.1.toList = c :: w ∧ c ≠ '-' ∧ c.isDigit = false) ∨
      ∃ c w, e.1.toList = '-' :: c :: w ∧ c.isDigit = false := by
  simp only [words, List.forall_mem_cons]
  exact ⟨.inl ⟨'n', _, rfl, by decide, rfl⟩, .inl ⟨'t', _, rfl, by decide, rfl⟩,
    .inl ⟨'f', _, rfl, by decide, rfl⟩, .inl ⟨'N', _, rfl, by decide, rfl⟩,
    .inl ⟨'I', _, rfl, by decide, rfl⟩, .inr ⟨'I', _, rfl, rfl⟩, by simp⟩

theorem readWord_of_spells {v : Json} {cs : List Char} (h : SpellsNumber v cs) (rest : List Char) :
    readWord (cs ++ rest) = none := by
  obtain @⟨negative, whole, fraction, fs, es, exponent, hwhole, -, -⟩ := h
  obtain ⟨d, ds, rfl⟩ := List.exists_cons_of_ne_nil hwhole.isDigits.1
  have hd : d.isDigit = true := hwhole.isDigits.2 d List.mem_cons_self
  have hne : ∀ c : Char, c.isDigit = false → c ≠ d := by
    rintro c hc rfl
    rw [hd] at hc
    cases hc
  rw [readWord, List.findSome?_eq_none_iff]
  intro e he
  rw [Option.map_eq_none_iff, stripWord?, if_neg]
  rw [List.isPrefixOf_iff_prefix]
  rcases exists_cons_of_mem_words e he with ⟨c, w, hw, hminus, hc⟩ | ⟨c, w, hw, hc⟩
  · rw [hw]
    cases negative with
    | true => exact fun hp => hminus (List.cons_prefix_cons.mp hp).1
    | false => exact fun hp => hne c hc (List.cons_prefix_cons.mp hp).1
  · rw [hw]
    cases negative with
    | true =>
      intro hp
      exact hne c hc (List.cons_prefix_cons.mp (List.cons_prefix_cons.mp hp).2).1
    | false => exact fun hp => hne '-' rfl (List.cons_prefix_cons.mp hp).1

theorem SpellsNumber.exists_cons {v : Json} {cs : List Char} (h : SpellsNumber v cs) :
    ∃ c r, cs = c :: r ∧ (c = '-' ∨ c.isDigit = true) := by
  obtain @⟨negative, whole, fraction, fs, es, exponent, hwhole, -, -⟩ := h
  obtain ⟨d, ds, rfl⟩ := List.exists_cons_of_ne_nil hwhole.isDigits.1
  cases negative with
  | true => exact ⟨'-', _, rfl, .inl rfl⟩
  | false => exact ⟨d, _, rfl, .inr (hwhole.isDigits.2 d List.mem_cons_self)⟩

/-- A value starts with neither a blank nor a closing bracket. -/
theorem Spells.exists_cons {v : Json} {cs : List Char} (h : Spells (.value v) cs) :
    ∃ c r, cs = c :: r ∧ ¬ IsBlank c ∧ c ≠ ']' := by
  cases h with
  | null => exact ⟨'n', _, rfl, by decide, by decide⟩
  | bool b => cases b <;> exact ⟨_, _, rfl, by decide, by decide⟩
  | number h =>
    obtain ⟨c, r, hcs, hc⟩ := h.exists_cons
    refine ⟨c, r, hcs, ?_, ?_⟩
    · rintro (rfl | rfl | rfl | rfl) <;> exact absurd hc (by decide)
    · rintro rfl
      exact absurd hc (by decide)
  | text _ => exact ⟨_, _, rfl, by decide, by decide⟩
  | emptyList _ => exact ⟨_, _, rfl, by decide, by decide⟩
  | list _ => exact ⟨_, _, rfl, by decide, by decide⟩
  | emptyObject _ => exact ⟨_, _, rfl, by decide, by decide⟩
  | object _ => exact ⟨_, _, rfl, by decide, by decide⟩

theorem Spells.item_starts {v : Json} {cs : List Char} (h : Spells (.item v) cs)
    (rest : List Char) : ∃ c r, skipBlank (cs ++ rest) = c :: r ∧ c ≠ ']' := by
  cases h with
  | item hbefore hv _ =>
    obtain ⟨c, r, rfl, hblank, hc⟩ := hv.exists_cons
    rw [List.append_assoc, List.cons_append, List.cons_append]
    exact ⟨c, _, skipBlank_append_cons hbefore hblank _, hc⟩

theorem Spells.items_starts {vs : List Json} {cs : List Char} (h : Spells (.items vs) cs)
    (rest : List Char) : ∃ c r, skipBlank (cs ++ rest) = c :: r ∧ c ≠ ']' := by
  cases h with
  | lastItem h => exact h.item_starts rest
  | moreItems h _ =>
    rw [List.append_assoc]
    exact h.item_starts _

theorem Spells.member_starts {m : String × Json} {cs : List Char} (h : Spells (.member m) cs)
    (rest : List Char) : ∃ r, skipBlank (cs ++ rest) = '\x22' :: r := by
  cases h with
  | member hbefore _ _ _ =>
    rw [List.append_assoc, List.cons_append]
    exact ⟨_, skipBlank_append_cons hbefore (by decide) _⟩

theorem Spells.members_starts {ms : List (String × Json)} {cs : List Char}
    (h : Spells (.members ms) cs) (rest : List Char) :
    ∃ r, skipBlank (cs ++ rest) = '\x22' :: r := by
  cases h with
  | lastMember h => exact h.member_starts rest
  | moreMembers h _ =>
    rw [List.append_assoc]
    exact h.member_starts _

/-! ### Steps of the reader -/

section Steps

variable {level fuel : Nat}

theorem readValue_skipBlank (cs : List Char) :
    readValue {} level fuel (skipBlank cs) = readValue {} level fuel cs := by
  cases fuel with
  | zero => rw [readValue_zero, readValue_zero]
  | succ fuel => rw [readValue, readValue, skipBlank_skipBlank]

theorem readItems_skipBlank (cs : List Char) :
    readItems {} level fuel (skipBlank cs) = readItems {} level fuel cs := by
  cases fuel with
  | zero => rw [readItems_zero, readItems_zero]
  | succ fuel => rw [readItems, readItems, readValue_skipBlank]

theorem readMembers_skipBlank (cs : List Char) :
    readMembers {} level fuel (skipBlank cs) = readMembers {} level fuel cs := by
  cases fuel with
  | zero => rw [readMembers_zero, readMembers_zero]
  | succ fuel => rw [readMembers, readMembers, skipBlank_skipBlank]

/-- What starts with no quote and no bracket is a word or a number. -/
theorem readValue_other {c : Char} {cs : List Char} (hblank : ¬ IsBlank c)
    (hc : c ≠ '\x22' ∧ c ≠ '[' ∧ c ≠ '\x7b') :
    readValue {} level (fuel + 1) (c :: cs) =
      ((readWord (c :: cs)).map Except.ok).getD (readNumber {} (c :: cs)) := by
  rw [readValue, skipBlank_cons hblank]
  split
  · next heq => exact absurd (List.cons.inj heq).1 hc.1
  · next heq => exact absurd (List.cons.inj heq).1 hc.2.1
  · next heq => exact absurd (List.cons.inj heq).1 hc.2.2
  · cases readWord (c :: cs) <;> rfl

theorem readValue_word {c : Char} {cs rest : List Char} {v : Json}
    (hword : readWord (c :: cs) = some (v, rest)) (hblank : ¬ IsBlank c)
    (hc : c ≠ '\x22' ∧ c ≠ '[' ∧ c ≠ '\x7b') :
    readValue {} level (fuel + 1) (c :: cs) = .ok (v, rest) := by
  rw [readValue_other hblank hc, hword]
  rfl

theorem readValue_number {v : Json} {cs rest : List Char} (h : SpellsNumber v cs)
    (hrest : Stops rest) : readValue {} level (fuel + 1) (cs ++ rest) = .ok (v, rest) := by
  have hnumber := readNumber_of_spells h hrest
  have hword := readWord_of_spells h rest
  obtain ⟨c, r, rfl, hc⟩ := h.exists_cons
  rw [List.cons_append] at hword hnumber ⊢
  rw [readValue_other, hword]
  · exact hnumber
  · rintro (rfl | rfl | rfl | rfl) <;> exact absurd hc (by decide)
  · refine ⟨?_, ?_, ?_⟩ <;> rintro rfl <;> exact absurd hc (by decide)

theorem readValue_text {cs rest : List Char} {points : List Nat}
    (h : readText cs = some (points, rest)) :
    readValue {} level (fuel + 1) ('\x22' :: cs) = .ok (ofPoints points, rest) := by
  rw [readValue, skipBlank_cons (by decide)]
  simp only [h]
  rfl

theorem readValue_emptyList {cs rest : List Char} (h : skipBlank cs = ']' :: rest) :
    readValue {} level (fuel + 1) ('[' :: cs) = .ok (.list [], rest) := by
  rw [readValue, skipBlank_cons (by decide)]
  simp only [h]
  rfl

theorem readValue_list {cs rest : List Char} {vs : List Json}
    (hstart : ∃ c r, skipBlank cs = c :: r ∧ c ≠ ']')
    (h : readItems {} (level + 1) fuel cs = .ok (vs, rest)) :
    readValue {} level (fuel + 1) ('[' :: cs) = .ok (.list vs, rest) := by
  obtain ⟨c, r, hcs, hc⟩ := hstart
  rw [← readItems_skipBlank, hcs] at h
  rw [readValue, skipBlank_cons (by decide)]
  simp only [hcs]
  split
  · next heq => exact absurd (List.cons.inj heq).1 hc
  · rw [h]
    rfl

theorem readValue_emptyObject {cs rest : List Char} (h : skipBlank cs = '\x7d' :: rest) :
    readValue {} level (fuel + 1) ('\x7b' :: cs) = .ok (.object [], rest) := by
  rw [readValue, skipBlank_cons (by decide)]
  simp only [h]
  rfl

theorem readValue_object {cs rest : List Char} {ms : List (String × Json)}
    (hstart : ∃ r, skipBlank cs = '\x22' :: r)
    (h : readMembers {} (level + 1) fuel cs = .ok (ms, rest)) :
    readValue {} level (fuel + 1) ('\x7b' :: cs) = .ok (.object (Members.settle ms), rest) := by
  obtain ⟨r, hcs⟩ := hstart
  rw [← readMembers_skipBlank, hcs] at h
  rw [readValue, skipBlank_cons (by decide)]
  simp only [hcs]
  split
  · next heq => exact absurd (List.cons.inj heq).1 (by decide)
  · rw [h]
    rfl

theorem readItems_last {cs r rest : List Char} {v : Json}
    (hv : readValue {} level fuel cs = .ok (v, r)) (hr : skipBlank r = ']' :: rest) :
    readItems {} level (fuel + 1) cs = .ok ([v], rest) := by
  rw [readItems, hv]
  simp only [bind, Except.bind, hr]
  rfl

theorem readItems_more {cs r r' rest : List Char} {v : Json} {vs : List Json}
    (hv : readValue {} level fuel cs = .ok (v, r)) (hr : skipBlank r = ',' :: r')
    (hvs : readItems {} level fuel r' = .ok (vs, rest)) :
    readItems {} level (fuel + 1) cs = .ok (v :: vs, rest) := by
  rw [readItems, hv]
  simp only [bind, Except.bind, hr, hvs]
  rfl

/-- What the reader finds of one member: its name, the colon and its value. -/
inductive ReadsMember (level fuel : Nat) (cs : List Char) : String × Json → List Char → Prop
  | mk {quoted named valued r : List Char} {points : List Nat} {v : Json} :
      skipBlank cs = '\x22' :: quoted → readText quoted = some (points, named) →
      skipBlank named = ':' :: valued → readValue {} level fuel valued = .ok (v, r) →
      ReadsMember level fuel cs (member points v) r

theorem readMembers_last {cs r rest : List Char} {m : String × Json}
    (hm : ReadsMember level fuel cs m r) (hr : skipBlank r = '\x7d' :: rest) :
    readMembers {} level (fuel + 1) cs = .ok ([m], rest) := by
  obtain ⟨hstart, hname, hcolon, hvalue⟩ := hm
  rw [readMembers, hstart]
  simp only [bind, Except.bind, hname, ReadFlaw.orMalformed, hcolon, hvalue, hr]
  rfl

theorem readMembers_more {cs r r' rest : List Char} {m : String × Json}
    {ms : List (String × Json)} (hm : ReadsMember level fuel cs m r)
    (hr : skipBlank r = ',' :: r') (hms : readMembers {} level fuel r' = .ok (ms, rest)) :
    readMembers {} level (fuel + 1) cs = .ok (m :: ms, rest) := by
  obtain ⟨hstart, hname, hcolon, hvalue⟩ := hm
  rw [readMembers, hstart]
  simp only [bind, Except.bind, hname, ReadFlaw.orMalformed, hcolon, hvalue, hr, hms]
  rfl

end Steps

/-! ### Whole texts -/

theorem stops_cons {c : Char} (h : c.isDigit = false ∧ c ≠ '.' ∧ c ≠ 'e' ∧ c ≠ 'E')
    (rest : List Char) : Stops (c :: rest) := by
  intro d hd
  obtain rfl : c = d := Option.mem_some_iff.mp hd
  exact h

theorem Stops.append {gap rest : List Char} (hrest : Stops rest) (hgap : IsGap gap) :
    Stops (gap ++ rest) := by
  cases gap with
  | nil => exact hrest
  | cons c gap =>
    refine stops_cons ?_ _
    rcases hgap c List.mem_cons_self with rfl | rfl | rfl | rfl <;> decide

theorem readWord_null (rest : List Char) :
    readWord ("null".toList ++ rest) = some (.null, rest) := rfl

theorem readWord_bool (b : Bool) (rest : List Char) :
    readWord ((if b then "true".toList else "false".toList) ++ rest) = some (.bool b, rest) := by
  cases b <;> rfl

/-- That the reader finds what a part of a text spells, whatever follows that part, with fuel for
two steps a character.  Of the blanks after an item it may leave any for later. -/
def Reads : Part → List Char → Prop
  | .value v, cs => ∀ level fuel rest, 2 * cs.length ≤ fuel + 1 → Stops rest →
      readValue {} level fuel (cs ++ rest) = .ok (v, rest)
  | .item v, cs => ∀ level fuel rest, 2 * cs.length ≤ fuel + 1 → Stops rest →
      ∃ r, readValue {} level fuel (cs ++ rest) = .ok (v, r) ∧ skipBlank r = skipBlank rest
  | .items vs, cs => ∀ level fuel rest, 2 * cs.length < fuel →
      readItems {} level fuel (cs ++ ']' :: rest) = .ok (vs, rest)
  | .member m, cs => ∀ level fuel rest, 2 * cs.length ≤ fuel + 1 → Stops rest →
      ∃ r, ReadsMember level fuel (cs ++ rest) m r ∧ skipBlank r = skipBlank rest
  | .members ms, cs => ∀ level fuel rest, 2 * cs.length < fuel →
      readMembers {} level fuel (cs ++ '\x7d' :: rest) = .ok (ms, rest)

/-- One step is there for a value that is not empty. -/
theorem Reads.of_succ {v : Json} {cs : List Char} (hcs : 0 < cs.length)
    (h : ∀ level fuel rest, 2 * cs.length ≤ fuel + 2 → Stops rest →
      readValue {} level (fuel + 1) (cs ++ rest) = .ok (v, rest)) : Reads (.value v) cs := by
  intro level fuel rest hfuel hrest
  obtain ⟨fuel, rfl⟩ : ∃ f, fuel = f + 1 := ⟨fuel - 1, by omega⟩
  exact h level fuel rest hfuel hrest

theorem Reads.enclosed {v : Json} {opening closing : Char} {cs : List Char}
    (h : ∀ level fuel rest, 2 * cs.length < fuel →
      readValue {} level (fuel + 1) (opening :: (cs ++ closing :: rest)) = .ok (v, rest)) :
    Reads (.value v) (opening :: (cs ++ [closing])) := by
  refine .of_succ (Nat.succ_pos _) fun level fuel rest hfuel _ => ?_
  rw [List.length_cons, List.length_append, List.length_singleton] at hfuel
  rw [List.cons_append, List.append_assoc]
  exact h level fuel rest (by omega)

theorem Spells.reads {part : Part} {cs : List Char} (h : Spells part cs) : Reads part cs := by
  induction h with
  | null =>
    refine .of_succ (by decide) fun level fuel rest _ _ => ?_
    exact readValue_word (readWord_null rest) (by decide) (by decide)
  | bool b =>
    refine .of_succ (by cases b <;> decide) fun level fuel rest _ _ => ?_
    have hword := readWord_bool b rest
    cases b <;> exact readValue_word hword (by decide) (by decide)
  | number h =>
    obtain ⟨c, r, hcs, -⟩ := h.exists_cons
    refine .of_succ (by rw [hcs]; exact Nat.succ_pos _) fun level fuel rest _ hrest => ?_
    exact readValue_number h hrest
  | text h =>
    refine .enclosed fun level fuel rest _ => ?_
    exact readValue_text (readText_of_spells h rest)
  | emptyList h =>
    refine .enclosed fun level fuel rest _ => ?_
    exact readValue_emptyList (skipBlank_append_cons h (by decide) rest)
  | list h ih =>
    refine .enclosed fun level fuel rest hfuel => ?_
    exact readValue_list (h.items_starts _) (ih (level + 1) fuel rest hfuel)
  | emptyObject h =>
    refine .enclosed fun level fuel rest _ => ?_
    exact readValue_emptyObject (skipBlank_append_cons h (by decide) rest)
  | object h ih =>
    refine .enclosed fun level fuel rest hfuel => ?_
    exact readValue_object (h.members_starts _) (ih (level + 1) fuel rest hfuel)
  | @item v before cs after hbefore h hafter ih =>
    intro level fuel rest hfuel hrest
    rw [List.length_append, List.length_append] at hfuel
    refine ⟨after ++ rest, ?_, skipBlank_append hafter rest⟩
    rw [← readValue_skipBlank, List.append_assoc, skipBlank_append hbefore, readValue_skipBlank,
      List.append_assoc]
    exact ih level fuel _ (by omega) (hrest.append hafter)
  | @lastItem v cs h ih =>
    intro level fuel rest hfuel
    obtain ⟨fuel, rfl⟩ : ∃ f, fuel = f + 1 := ⟨fuel - 1, by omega⟩
    obtain ⟨r, hv, hr⟩ := ih level fuel (']' :: rest) (by omega) (stops_cons (by decide) _)
    exact readItems_last hv (hr.trans (skipBlank_cons (by decide) _))
  | @moreItems v vs cs ds h hs ih ihs =>
    intro level fuel rest hfuel
    rw [List.length_append, List.length_cons] at hfuel
    obtain ⟨fuel, rfl⟩ : ∃ f, fuel = f + 1 := ⟨fuel - 1, by omega⟩
    obtain ⟨r, hv, hr⟩ := ih level fuel (',' :: (ds ++ ']' :: rest)) (by omega)
      (stops_cons (by decide) _)
    rw [List.append_assoc, List.cons_append]
    exact readItems_more hv (hr.trans (skipBlank_cons (by decide) _))
      (ihs level fuel rest (by omega))
  | @member ns v before ks after cs hbefore hname hafter h ih =>
    intro level fuel rest hfuel hrest
    simp only [List.length_append, List.length_cons] at hfuel
    obtain ⟨r, hv, hr⟩ := ih level fuel rest (by omega) hrest
    refine ⟨r, .mk ?_ (readText_of_spells hname (after ++ ':' :: (cs ++ rest))) ?_ hv, hr⟩
    · simp only [List.append_assoc, List.cons_append]
      exact skipBlank_append_cons hbefore (by decide) _
    · exact skipBlank_append_cons hafter (by decide) _
  | @lastMember m cs h ih =>
    intro level fuel rest hfuel
    obtain ⟨fuel, rfl⟩ : ∃ f, fuel = f + 1 := ⟨fuel - 1, by omega⟩
    obtain ⟨r, hm, hr⟩ := ih level fuel ('\x7d' :: rest) (by omega) (stops_cons (by decide) _)
    exact readMembers_last hm (hr.trans (skipBlank_cons (by decide) _))
  | @moreMembers m ms cs ds h hs ih ihs =>
    intro level fuel rest hfuel
    rw [List.length_append, List.length_cons] at hfuel
    obtain ⟨fuel, rfl⟩ : ∃ f, fuel = f + 1 := ⟨fuel - 1, by omega⟩
    obtain ⟨r, hm, hr⟩ := ih level fuel (',' :: (ds ++ '\x7d' :: rest)) (by omega)
      (stops_cons (by decide) _)
    rw [List.append_assoc, List.cons_append]
    exact readMembers_more hm (hr.trans (skipBlank_cons (by decide) _))
      (ihs level fuel rest (by omega))

/-- **The reader finds the value that a text spells.** -/
theorem read?_of_isTextOf {v : Json} {s : String} (h : IsTextOf v s) : read? s = some v := by
  obtain ⟨r, hread, hr⟩ := h.reads 0 (2 * s.toList.length + 2) [] (by omega) (by simp [Stops])
  rw [List.append_nil] at hread
  have hrest : (skipBlank r).isEmpty = true := by rw [hr]; rfl
  simp only [read?, read, readChars, hread, bind, Except.bind, hrest, if_true]
  rfl

end Json
end ScopeIndex
