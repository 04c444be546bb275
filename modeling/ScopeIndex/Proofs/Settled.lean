import Mathlib
import ScopeIndex.Proofs.Members
import ScopeIndex.Proofs.Step
import ScopeIndex.Settings.Toml.Document

/-!
# Files repeat no names

What the readers of JSON and of files with tables return is a mapping at every level: no object in
it has two members with one name.  In JSON of two members with one name the later counts, and in a
file with tables nothing is given a value twice.

## Main definitions

* `Json.Settled` — a value of which no object repeats a name.

## Main results

* `Json.settled_of_read` — **a JSON text repeats no name when it is read.**
* `Toml.settled_of_read` — **nor does a file with tables.**
-/

namespace ScopeIndex

/-! ### Values that repeat no names -/

/-- Is a value neither an array nor an object? -/
def Json.isPlain : Json → Bool
  | .list _ | .object _ => false
  | _ => true

/-- No object in a value repeats a name. -/
inductive Json.Settled : Json → Prop where
  | plain {v : Json} (h : v.isPlain = true) : Settled v
  | list {vs : List Json} (h : ∀ v ∈ vs, Settled v) : Settled (.list vs)
  | object {ms : Members Json} (hnodup : (Members.keys ms).Nodup) (h : ∀ m ∈ ms, Settled m.2) :
      Settled (.object ms)

theorem Members.mem_put {α : Type} {ms : Members α} {key : String} {value : α}
    {m : String × α} (h : m ∈ put key value ms) : m ∈ ms ∨ m = (key, value) := by
  induction ms with
  | nil => exact .inr (List.mem_singleton.mp h)
  | cons m' ms ih =>
    obtain ⟨k, v⟩ := m'
    rw [put] at h
    split at h
    · next hk =>
      rcases List.mem_cons.mp h with rfl | h
      · exact .inr (by rw [hk])
      · exact .inl (List.mem_cons_of_mem _ h)
    · rcases List.mem_cons.mp h with rfl | h
      · exact .inl List.mem_cons_self
      · exact (ih h).imp_left (List.mem_cons_of_mem _)

theorem Members.mem_of_get? {α : Type} {ms : Members α} {key : String} {value : α}
    (h : get? ms key = some value) : (key, value) ∈ ms := by
  obtain ⟨m, hm, rfl⟩ := Option.map_eq_some_iff.mp h
  obtain rfl : m.1 = key := by simpa using List.find?_some hm
  exact List.mem_of_find?_eq_some hm

namespace Json

variable {v : Json} {vs : List Json} {ms : Members Json} {key : String}

theorem Settled.items (h : Settled (.list vs)) : ∀ v ∈ vs, Settled v := by
  cases h with
  | plain h => cases h
  | list h => exact h

theorem Settled.nodup (h : Settled (.object ms)) : (Members.keys ms).Nodup := by
  cases h with
  | plain h => cases h
  | object hnodup h => exact hnodup

theorem Settled.members (h : Settled (.object ms)) : ∀ m ∈ ms, Settled m.2 := by
  cases h with
  | plain h => cases h
  | object hnodup h => exact h

theorem settled_empty : Settled (.object []) := .object List.nodup_nil nofun

theorem Settled.get? (h : Settled (.object ms)) (hv : Members.get? ms key = some v) : Settled v :=
  h.members _ (Members.mem_of_get? hv)

theorem Settled.put (h : Settled (.object ms)) (hv : Settled v) :
    Settled (.object (Members.put key v ms)) := by
  refine .object (Members.nodup_keys_put h.nodup) fun m hm => ?_
  rcases Members.mem_put hm with hm | rfl
  · exact h.members m hm
  · exact hv

/-- Members that are settled repeat no name. -/
theorem settled_settle (h : ∀ m ∈ ms, Settled m.2) : Settled (.object (Members.settle ms)) :=
  List.foldlRecOn ms _ (motive := fun acc => Settled (.object acc)) settled_empty
    fun _ hacc m hm => hacc.put (h m hm)

/-! ### JSON texts -/

theorem settled_ofPoints (points : List Nat) : Settled (ofPoints points) := by
  rw [ofPoints]
  split
  · exact .plain rfl
  · exact .plain rfl

theorem settled_member (h : Settled v) (points : List Nat) : Settled (member points v).2 := by
  rw [member]
  split
  · exact .plain rfl
  · exact h

theorem settled_readWord {cs r : List Char} (h : readWord cs = some (v, r)) : Settled v := by
  obtain ⟨⟨word, u⟩, hmem, hfound⟩ := List.exists_of_findSome?_eq_some h
  obtain ⟨rest, -, heq⟩ := Option.map_eq_some_iff.mp hfound
  obtain ⟨rfl, -⟩ := Prod.mk.inj heq
  have hwords : ∀ e ∈ words, e.2.isPlain = true := by decide
  exact .plain (hwords _ hmem)

theorem settled_readNumber {limits : ReadLimits} {cs r : List Char}
    (h : readNumber limits cs = .ok (v, r)) : Settled v := by
  unfold readNumber at h
  obtain ⟨⟨whole, rest⟩, -, h⟩ := exists_of_bind_eq_ok h
  dsimp only at h
  split at h
  · obtain ⟨n, -, h⟩ := exists_of_bind_eq_ok h
    cases h
    exact .plain rfl
  · cases h
    exact .plain rfl

/-- What the readers return within some number of steps repeats no name. -/
structure ReadsSettled (limits : ReadLimits) (fuel : Nat) : Prop where
  value : ∀ {level cs v r}, readValue limits level fuel cs = .ok (v, r) → Settled v
  items : ∀ {level cs vs r}, readItems limits level fuel cs = .ok (vs, r) → ∀ v ∈ vs, Settled v
  members : ∀ {level cs ms r}, readMembers limits level fuel cs = .ok (ms, r) →
    ∀ m ∈ ms, Settled m.2

section Step

variable {limits : ReadLimits} {level fuel : Nat} {cs r : List Char}

theorem ReadsSettled.readValue_succ (ih : ReadsSettled limits fuel)
    (h : readValue limits level (fuel + 1) cs = .ok (v, r)) : Settled v := by
  rw [readValue] at h
  -- a text, an array, an object, and what starts with neither a quote nor a bracket
  split at h
  · obtain ⟨points, -, h⟩ := exists_of_bind_eq_ok h
    cases h
    exact settled_ofPoints _
  · obtain ⟨-, -, h⟩ := exists_of_bind_eq_ok h
    split at h
    · cases h
      exact .list fun _ hmem => absurd hmem List.not_mem_nil
    · obtain ⟨⟨vs, rest⟩, hvs, h⟩ := exists_of_bind_eq_ok h
      cases h
      exact .list (ih.items hvs)
  · obtain ⟨-, -, h⟩ := exists_of_bind_eq_ok h
    split at h
    · cases h
      exact settled_empty
    · obtain ⟨⟨ms, rest⟩, hms, h⟩ := exists_of_bind_eq_ok h
      cases h
      exact settled_settle (ih.members hms)
  · split at h
    · next hword =>
      cases h
      exact settled_readWord hword
    · exact settled_readNumber h

theorem ReadsSettled.readItems_succ (ih : ReadsSettled limits fuel)
    (h : readItems limits level (fuel + 1) cs = .ok (vs, r)) : ∀ v ∈ vs, Settled v := by
  rw [readItems] at h
  obtain ⟨⟨first, rest⟩, hfirst, h⟩ := exists_of_bind_eq_ok h
  have hfirst := ih.value hfirst
  dsimp only at h
  split at h
  · cases h
    exact List.forall_mem_singleton.mpr hfirst
  · obtain ⟨⟨others, rest'⟩, hothers, h⟩ := exists_of_bind_eq_ok h
    cases h
    exact List.forall_mem_cons.mpr ⟨hfirst, ih.items hothers⟩
  · cases h

theorem ReadsSettled.readMembers_succ (ih : ReadsSettled limits fuel)
    (h : readMembers limits level (fuel + 1) cs = .ok (ms, r)) : ∀ m ∈ ms, Settled m.2 := by
  rw [readMembers] at h
  split at h
  · obtain ⟨⟨points, rest⟩, -, h⟩ := exists_of_bind_eq_ok h
    dsimp only at h
    split at h
    · obtain ⟨⟨first, rest'⟩, hfirst, h⟩ := exists_of_bind_eq_ok h
      have hfirst := settled_member (ih.value hfirst) points
      dsimp only at h
      split at h
      · cases h
        exact List.forall_mem_singleton.mpr hfirst
      · obtain ⟨⟨others, rest''⟩, hothers, h⟩ := exists_of_bind_eq_ok h
        cases h
        exact List.forall_mem_cons.mpr ⟨hfirst, ih.members hothers⟩
      · cases h
    · cases h
  · cases h

end Step

theorem readsSettled (limits : ReadLimits) (fuel : Nat) : ReadsSettled limits fuel := by
  induction fuel with
  | zero =>
    refine ⟨fun h => ?_, fun h => ?_, fun h => ?_⟩
    · rw [readValue_zero] at h
      cases h
    · rw [readItems_zero] at h
      cases h
    · rw [readMembers_zero] at h
      cases h
  | succ fuel ih => exact ⟨ih.readValue_succ, ih.readItems_succ, ih.readMembers_succ⟩

/-- **A JSON text repeats no name when it is read.** -/
theorem settled_of_read {limits : ReadLimits} {s : String} (h : read limits s = .ok v) :
    Settled v := by
  obtain ⟨⟨u, rest⟩, hu, h⟩ := exists_of_bind_eq_ok h
  dsimp only at h
  split at h
  · cases h
    exact (readsSettled limits _).value hu
  · cases h

end Json

/-! ### Files with tables -/

namespace Toml

open Json (Settled settled_empty)

variable {v : Json} {ms ms' : Members Json} {key : Key}

/-- A change of a table keeps names from being repeated. -/
def Keeps (change : Members Json → Option (Members Json)) : Prop :=
  ∀ ms ms', Settled (.object ms) → change ms = some ms' → Settled (.object ms')

theorem keeps_putNew? (k : String) (hv : Settled v) : Keeps (putNew? k v) := by
  intro ms ms' hms h
  rw [putNew?] at h
  split at h
  · cases h
  · cases h
    exact hms.put hv

theorem keeps_pushTable? (k : String) : Keeps (pushTable? k) := by
  intro ms ms' hms h
  rw [pushTable?] at h
  split at h
  · cases h
    exact hms.put (.list (List.forall_mem_singleton.mpr settled_empty))
  · next vs hvs =>
    cases h
    refine hms.put (.list (List.forall_mem_append.mpr ⟨(hms.get? hvs).items, ?_⟩))
    exact List.forall_mem_singleton.mpr settled_empty
  · cases h

theorem settled_inTable? {change : Members Json → Option (Members Json)} {v' : Json}
    (hchange : Keeps change) (hv : Settled v) (h : inTable? change v = some v') : Settled v' := by
  unfold inTable? at h
  split at h
  · obtain ⟨ms', hms', rfl⟩ := Option.map_eq_some_iff.mp h
    exact hchange _ _ hv hms'
  · next vs =>
    split at h
    · next ms hlast =>
      obtain ⟨ms', hms', rfl⟩ := Option.map_eq_some_iff.mp h
      have hms := hv.items _ (List.mem_of_getLast? hlast)
      refine .list (List.forall_mem_append.mpr ⟨fun u hu => ?_, ?_⟩)
      · exact hv.items u (List.mem_of_mem_dropLast hu)
      · exact List.forall_mem_singleton.mpr (hchange _ _ hms hms')
    · cases h
  · cases h

/-- A change below the parts of a key is a change of the table. -/
theorem keeps_within? {change : Members Json → Option (Members Json)} (hchange : Keeps change)
    (key : Key) : Keeps (within? change key) := by
  induction key with
  | nil => exact hchange
  | cons k ks ih =>
    intro ms ms' hms h
    obtain ⟨v, hv, rfl⟩ := Option.map_eq_some_iff.mp h
    refine hms.put (settled_inTable? ih ?_ hv)
    cases hget : Members.get? ms k with
    | none => exact settled_empty
    | some u => exact hms.get? hget

/-! ### Their readers -/

theorem orMalformed_eq_ok {α : Type} {x : Option α} {a : α}
    (h : ReadFlaw.orMalformed x = .ok a) : x = some a := by
  cases x with
  | none => cases h
  | some b =>
    cases h
    rfl

theorem settled_readDecimal? {cs r : List Char} (h : readDecimal? cs = some (.ok v, r)) :
    Settled v := by
  unfold readDecimal? at h
  dsimp only at h
  obtain ⟨⟨whole, rest⟩, -, h⟩ := Option.bind_eq_some_iff.mp h
  dsimp only at h
  split at h
  · obtain ⟨hnumber, -⟩ := Prod.mk.inj (Option.some.inj h)
    generalize limits.checkDigits _ _ = checked at hnumber
    cases checked with
    | error flaw => cases hnumber
    | ok n =>
      cases hnumber
      exact .plain rfl
  · cases h
    exact .plain rfl

theorem settled_readNumber {cs r : List Char} (h : readNumber cs = .ok (v, r)) : Settled v := by
  rw [readNumber] at h
  split at h
  · next hbased =>
    cases h
    unfold readBased? at hbased
    split at hbased
    · obtain ⟨base, -, hbased⟩ := Option.bind_eq_some_iff.mp hbased
      obtain ⟨⟨ds, rest⟩, -, hbased⟩ := Option.bind_eq_some_iff.mp hbased
      cases hbased
      exact .plain rfl
    · cases hbased
  · split at h
    · next number rest hdecimal =>
      cases number with
      | error flaw => cases h
      | ok u =>
        cases h
        exact settled_readDecimal? hdecimal
    · obtain ⟨⟨word, x⟩, -, hfound⟩ := List.exists_of_findSome?_eq_some (orMalformed_eq_ok h)
      obtain ⟨rest, -, heq⟩ := Option.map_eq_some_iff.mp hfound
      cases heq
      exact .plain rfl

theorem settled_readMoment? {cs r : List Char} (h : readMoment? cs = some (.ok (v, r))) :
    Settled v := by
  rw [readMoment?] at h
  split at h
  · cases h
    exact .plain rfl
  · cases h
  · obtain ⟨rest, -, heq⟩ := Option.map_eq_some_iff.mp h
    cases heq
    exact .plain rfl

theorem settled_readScalar {cs r : List Char} (h : readScalar cs = .ok (v, r)) : Settled v := by
  rw [readScalar] at h
  split at h
  · next found hfound =>
    cases found with
    | error flaw => cases h
    | ok text =>
      cases h
      exact .plain rfl
  · split at h
    · cases h
      exact .plain rfl
    · cases hmoment : readMoment? cs with
      | none =>
        rw [hmoment] at h
        exact settled_readNumber h
      | some found =>
        rw [hmoment] at h
        exact settled_readMoment? (hmoment.trans (congrArg some h))

theorem settled_bindInline? {sealed : List Key} (hv : Settled v) (hms : Settled (.object ms))
    (h : bindInline? sealed key v ms = some ms') : Settled (.object ms') := by
  obtain ⟨k, -, h⟩ := Option.bind_eq_some_iff.mp h
  split at h
  · cases h
  · exact keeps_within? (keeps_putNew? k hv) _ _ _ hms h

/-- What the readers return within some number of steps repeats no name. -/
structure ReadsSettled (fuel : Nat) : Prop where
  value : ∀ {level cs v r}, readValue level fuel cs = .ok (v, r) → Settled v
  items : ∀ {level cs vs r}, readItems level fuel cs = .ok (vs, r) → ∀ v ∈ vs, Settled v
  members : ∀ {level cs sealed ms ms' r}, Settled (.object ms) →
    readMembers level fuel cs sealed ms = .ok (ms', r) → Settled (.object ms')

section Step

variable {level fuel : Nat} {cs r : List Char} {vs : List Json} {sealed : List Key}

theorem ReadsSettled.readValue_succ (ih : ReadsSettled fuel)
    (h : readValue level (fuel + 1) cs = .ok (v, r)) : Settled v := by
  unfold readValue at h
  dsimp only at h
  -- an array, a table in braces, and all the rest
  split at h
  · obtain ⟨-, -, h⟩ := exists_of_bind_eq_ok h
    obtain ⟨⟨vs, rest⟩, hvs, h⟩ := exists_of_bind_eq_ok h
    cases h
    exact .list (ih.items hvs)
  · obtain ⟨-, -, h⟩ := exists_of_bind_eq_ok h
    split at h
    · cases h
      exact settled_empty
    · obtain ⟨⟨ms, rest⟩, hms, h⟩ := exists_of_bind_eq_ok h
      cases h
      exact ih.members settled_empty hms
  · exact settled_readScalar h

theorem ReadsSettled.readItems_succ (ih : ReadsSettled fuel)
    (h : readItems level (fuel + 1) cs = .ok (vs, r)) : ∀ v ∈ vs, Settled v := by
  rw [readItems] at h
  obtain ⟨front, -, h⟩ := exists_of_bind_eq_ok h
  split at h
  · cases h
    exact nofun
  · obtain ⟨⟨first, rest⟩, hfirst, h⟩ := exists_of_bind_eq_ok h
    have hfirst := ih.value hfirst
    obtain ⟨behind, -, h⟩ := exists_of_bind_eq_ok h
    split at h
    · obtain ⟨⟨others, rest'⟩, hothers, h⟩ := exists_of_bind_eq_ok h
      cases h
      exact List.forall_mem_cons.mpr ⟨hfirst, ih.items hothers⟩
    · cases h
      exact List.forall_mem_singleton.mpr hfirst
    · cases h

theorem ReadsSettled.readMembers_succ (ih : ReadsSettled fuel) (hms : Settled (.object ms))
    (h : readMembers level (fuel + 1) cs sealed ms = .ok (ms', r)) : Settled (.object ms') := by
  rw [readMembers] at h
  obtain ⟨⟨key, rest⟩, -, h⟩ := exists_of_bind_eq_ok h
  dsimp only at h
  split at h
  · obtain ⟨⟨v, rest'⟩, hv, h⟩ := exists_of_bind_eq_ok h
    obtain ⟨more, hmore, h⟩ := exists_of_bind_eq_ok h
    have hmore := settled_bindInline? (ih.value hv) hms (orMalformed_eq_ok hmore)
    dsimp only at h
    split at h
    · exact ih.members hmore h
    · cases h
      exact hmore
    · cases h
  · cases h

end Step

theorem readsSettled (fuel : Nat) : ReadsSettled fuel := by
  induction fuel with
  | zero =>
    refine ⟨fun h => ?_, fun h => ?_, fun _ h => ?_⟩
    · rw [readValue] at h
      cases h
    · rw [readItems] at h
      cases h
    · rw [readMembers] at h
      cases h
  | succ fuel ih => exact ⟨ih.readValue_succ, ih.readItems_succ, ih.readMembers_succ⟩

/-! ### Lines -/

theorem settled_beginTable? {d d' : Draft} (hd : Settled (.object d.root))
    (h : d.beginTable? key = some d') : Settled (.object d'.root) := by
  unfold Draft.beginTable? at h
  dsimp only at h
  split at h
  · cases h
  · obtain ⟨root, hroot, h⟩ := Option.bind_eq_some_iff.mp h
    cases h
    refine keeps_within? ?_ key _ _ hd hroot
    intro ms ms' hms h
    cases h
    exact hms

theorem settled_beginItem? {d d' : Draft} (hd : Settled (.object d.root))
    (h : d.beginItem? key = some d') : Settled (.object d'.root) := by
  unfold Draft.beginItem? at h
  dsimp only at h
  obtain ⟨k, -, h⟩ := Option.bind_eq_some_iff.mp h
  split at h
  · cases h
  · obtain ⟨root, hroot, h⟩ := Option.bind_eq_some_iff.mp h
    cases h
    exact keeps_within? (keeps_pushTable? k) _ _ _ hd hroot

theorem settled_bind? {d d' : Draft} (hd : Settled (.object d.root)) (hv : Settled v)
    (h : d.bind? key v = some d') : Settled (.object d'.root) := by
  unfold Draft.bind? at h
  obtain ⟨k, -, h⟩ := Option.bind_eq_some_iff.mp h
  dsimp only at h
  split at h
  · cases h
  · obtain ⟨root, hroot, h⟩ := Option.bind_eq_some_iff.mp h
    cases h
    exact keeps_within? (keeps_putNew? k hv) _ _ _ hd hroot

theorem settled_readTable {d d' : Draft} {cs r : List Char} (hd : Settled (.object d.root))
    (h : readTable d cs = .ok (d', r)) : Settled (.object d'.root) := by
  obtain ⟨⟨key, rest⟩, -, h⟩ := exists_of_bind_eq_ok h
  obtain ⟨begun, hbegun, h⟩ := exists_of_bind_eq_ok h
  have hbegun := settled_beginTable? hd (orMalformed_eq_ok hbegun)
  split at h
  · obtain ⟨rest', -, h⟩ := exists_of_bind_eq_ok h
    cases h
    exact hbegun
  · cases h

theorem settled_readItem {d d' : Draft} {cs r : List Char} (hd : Settled (.object d.root))
    (h : readItem d cs = .ok (d', r)) : Settled (.object d'.root) := by
  obtain ⟨⟨key, rest⟩, -, h⟩ := exists_of_bind_eq_ok h
  obtain ⟨begun, hbegun, h⟩ := exists_of_bind_eq_ok h
  have hbegun := settled_beginItem? hd (orMalformed_eq_ok hbegun)
  split at h
  · obtain ⟨rest', -, h⟩ := exists_of_bind_eq_ok h
    cases h
    exact hbegun
  · cases h

theorem settled_readBinding {d d' : Draft} {cs r : List Char} (hd : Settled (.object d.root))
    (h : readBinding d cs = .ok (d', r)) : Settled (.object d'.root) := by
  obtain ⟨⟨key, rest⟩, -, h⟩ := exists_of_bind_eq_ok h
  dsimp only at h
  split at h
  · obtain ⟨⟨v, rest'⟩, hv, h⟩ := exists_of_bind_eq_ok h
    obtain ⟨bound, hbound, h⟩ := exists_of_bind_eq_ok h
    have hbound := settled_bind? hd ((readsSettled _).value hv) (orMalformed_eq_ok hbound)
    obtain ⟨rest'', -, h⟩ := exists_of_bind_eq_ok h
    cases h
    exact hbound
  · cases h

/-- Every line keeps names from being repeated. -/
theorem settled_readStatements {fuel : Nat} {d : Draft} {cs : List Char}
    (hd : Settled (.object d.root)) (h : readStatements fuel d cs = .ok ms) :
    Settled (.object ms) := by
  induction fuel generalizing d cs with
  | zero =>
    rw [readStatements] at h
    cases h
  | succ fuel ih =>
    rw [readStatements] at h
    obtain ⟨front, -, h⟩ := exists_of_bind_eq_ok h
    -- the end of the file, the two kinds of headers, and a binding
    split at h
    · cases h
      exact hd
    · obtain ⟨⟨d', rest⟩, hline, h⟩ := exists_of_bind_eq_ok h
      exact ih (settled_readItem hd hline) h
    · obtain ⟨⟨d', rest⟩, hline, h⟩ := exists_of_bind_eq_ok h
      exact ih (settled_readTable hd hline) h
    · obtain ⟨⟨d', rest⟩, hline, h⟩ := exists_of_bind_eq_ok h
      exact ih (settled_readBinding hd hline) h

/-- **A file with tables repeats no name when it is read.** -/
theorem settled_of_read {s : String} (h : read s = .ok ms) : Settled (.object ms) :=
  settled_readStatements settled_empty h

end Toml
end ScopeIndex
