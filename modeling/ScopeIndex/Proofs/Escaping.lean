import Mathlib
import ScopeIndex.Proofs.Separators
import ScopeIndex.SymbolPath

/-!
# Keys and the paths they stand for

Escaping works on the fragments of a path, and a fragment is escaped by at most a blank
in front of it, so no dot comes or goes and the fragments of the key are the escaped
fragments of the path.  The texts that are not cut at all are those whose fragments
escaping leaves alone.

So whether a text is a key can be seen from its fragments: each must need the blank that it
starts with, and must not lack one.

## Main definitions

* `SymbolPath.IsKey` — the fragments of a text have the blanks that they need.

## Main results

* `SymbolPath.escape_eq`, `SymbolPath.unescape_eq` — both work fragment by fragment on
  every text.
* `SymbolPath.unescape_escape` — a key gives its path back.
* `SymbolPath.escape_unescape_iff` — which texts a path gives back.
* `SymbolPath.escape_one_to_one` — keys stand for paths one to one.
-/

namespace ScopeIndex
namespace SymbolPath

open Separated

theorem occursIn_iff {w : List Char} : ∀ {cs : List Char}, occursIn w cs = true ↔ w <:+: cs
  | [] => by rw [occursIn, List.isEmpty_iff, List.infix_nil]
  | c :: cs => by
    rw [occursIn, Bool.or_eq_true, List.isPrefixOf_iff_prefix, occursIn_iff, List.infix_cons_iff]

/-! ### Texts that are not cut -/

/-- The key of a path, fragment by fragment. -/
theorem escape_eq (path : String) : escape path = String.ofList (escapeFragments path.toList) := by
  unfold escape
  split
  · rfl
  · next h =>
    rw [Bool.or_eq_true, not_or, occursIn_iff, List.contains_iff_mem] at h
    have hsame : escapeFragments path.toList = path.toList := by
      refine join_map_split_eq_self fun f hf => if_neg ?_
      -- a fragment that needed a blank would bring the reserved word or a blank into the text
      rintro (rfl | hblank)
      · exact h.1 (infix_of_mem_split hf)
      · exact h.2 ((infix_of_mem_split hf).subset (List.mem_of_mem_head? hblank))
    rw [hsame, String.ofList_toList]

/-- The path of a key, fragment by fragment. -/
theorem unescape_eq (key : String) :
    unescape key = String.ofList (unescapeFragments key.toList) := by
  unfold unescape
  split
  · rfl
  · next h =>
    rw [List.contains_iff_mem] at h
    have hsame : unescapeFragments key.toList = key.toList := by
      refine join_map_split_eq_self fun f hf => ?_
      cases f with
      | nil => rfl
      | cons c f =>
        have hc : c ≠ ' ' := by
          rintro rfl
          exact h ((infix_of_mem_split hf).subset List.mem_cons_self)
        simp [unescapeFragment, hc]
    rw [hsame, String.ofList_toList]

/-! ### Keys give their paths back -/

theorem dot_not_mem_escapeFragment {f : List Char} (h : '.' ∉ f) : '.' ∉ escapeFragment f := by
  unfold escapeFragment
  split
  · exact List.not_mem_cons_of_ne_of_not_mem (by decide) h
  · exact h

/-- The fragments of a key are the escaped fragments of its path. -/
theorem split_escapeFragments (cs : List Char) :
    split '.' (escapeFragments cs) = (split '.' cs).map escapeFragment :=
  split_join_map_split (fun _ => dot_not_mem_escapeFragment) cs

/-- **A key gives its path back.** -/
@[simp] theorem unescape_escape (path : String) : unescape (escape path) = path := by
  rw [unescape_eq, escape_eq, String.toList_ofList, unescapeFragments, split_escapeFragments,
    List.map_map, join_map_split_eq_self (g := unescapeFragment ∘ escapeFragment) fun f _ =>
      unescapeFragment_escapeFragment f,
    String.ofList_toList]

theorem escape_injective : Function.Injective escape :=
  Function.LeftInverse.injective unescape_escape

/-! ### Which texts are keys -/

/-- No fragment is the reserved word, and a fragment that starts with a blank goes on with
the reserved word or with another blank. -/
def IsKey (key : String) : Prop :=
  ∀ f ∈ split '.' key.toList,
    f ≠ reserved ∧ ∀ g, f = ' ' :: g → g = reserved ∨ g.head? = some ' '

theorem escapeFragment_unescapeFragment_iff (f : List Char) :
    escapeFragment (unescapeFragment f) = f ↔
      f ≠ reserved ∧ ∀ g, f = ' ' :: g → g = reserved ∨ g.head? = some ' ' := by
  by_cases hblank : ∃ g, f = ' ' :: g
  · -- the blank goes, and comes back if the rest needs it
    obtain ⟨g, rfl⟩ := hblank
    have hne : ' ' :: g ≠ reserved := by
      intro h
      have hhead : some ' ' = reserved.head? := congrArg List.head? h
      exact absurd hhead (by decide)
    rw [unescapeFragment, escapeFragment]
    constructor
    · intro h
      refine ⟨hne, fun g' hg' => ?_⟩
      rw [← (List.cons.inj hg').2]
      by_contra hneeds
      rw [if_neg hneeds] at h
      exact absurd (congrArg List.length h) (by simp)
    · intro h
      rw [if_pos (h.2 g rfl)]
  · have hstays : unescapeFragment f = f := by
      unfold unescapeFragment
      split
      · next g => exact absurd ⟨g, rfl⟩ hblank
      · rfl
    have hhead : f.head? ≠ some ' ' := by
      intro h
      obtain ⟨g, hg⟩ := List.head?_eq_some_iff.mp h
      exact hblank ⟨g, hg⟩
    rw [hstays, escapeFragment]
    constructor
    · intro h
      refine ⟨fun hr => ?_, fun g hg => absurd ⟨g, hg⟩ hblank⟩
      rw [if_pos (.inl hr)] at h
      exact absurd (congrArg List.length h) (by simp)
    · intro h
      rw [if_neg (not_or.mpr ⟨h.1, hhead⟩)]

theorem dot_not_mem_unescapeFragment {f : List Char} (h : '.' ∉ f) : '.' ∉ unescapeFragment f := by
  unfold unescapeFragment
  split
  · exact fun hg => h (List.mem_cons_of_mem _ hg)
  · exact h

/-- The fragments of a path are the fragments of its key, each without its blank. -/
theorem split_unescapeFragments (cs : List Char) :
    split '.' (unescapeFragments cs) = (split '.' cs).map unescapeFragment :=
  split_join_map_split (fun _ => dot_not_mem_unescapeFragment) cs

/-- The path of a text has that text for its key just when the text is one. -/
theorem escape_unescape_iff (key : String) : escape (unescape key) = key ↔ IsKey key := by
  have hfragments : escape (unescape key) = key ↔
      escapeFragments (unescapeFragments key.toList) = key.toList := by
    rw [escape_eq, unescape_eq, String.toList_ofList, ← String.toList_inj, String.toList_ofList]
  have heach : (∀ f ∈ split '.' key.toList, escapeFragment (unescapeFragment f) = f) ↔
      IsKey key :=
    forall₂_congr fun f _ => escapeFragment_unescapeFragment_iff f
  rw [hfragments, ← heach]
  constructor
  · intro h f hf
    -- cut at the dots again, both sides have the same fragments
    have hsplit := split_escapeFragments (unescapeFragments key.toList)
    rw [h, split_unescapeFragments, List.map_map] at hsplit
    exact List.map_inj_left.mp (hsplit.symm.trans (List.map_id _).symm) f hf
  · intro h
    rw [escapeFragments, split_unescapeFragments, List.map_map]
    exact join_map_split_eq_self h

/-- **Keys stand for paths one to one.**  A key gives its path back, so different paths
have different keys; a text is the key of its path just when its fragments have the blanks
that they need, and those are all the keys that there are. -/
theorem escape_one_to_one :
    (∀ path, unescape (escape path) = path) ∧ Function.Injective escape ∧
      (∀ key, escape (unescape key) = key ↔ IsKey key) ∧
      Set.range escape = {key | IsKey key} := by
  refine ⟨unescape_escape, escape_injective, escape_unescape_iff, ?_⟩
  ext key
  change key ∈ Set.range escape ↔ IsKey key
  rw [← escape_unescape_iff]
  constructor
  · rintro ⟨path, rfl⟩
    rw [unescape_escape]
  · intro h
    exact ⟨unescape key, h⟩

end SymbolPath
end ScopeIndex
