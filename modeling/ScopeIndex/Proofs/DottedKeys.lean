import Mathlib
import ScopeIndex.Proofs.Additions

/-!
# Keys of dotted texts

Escaping looks at a whole text to decide whether to cut it.  Of two texts with a dot between
them, one may hold a blank or the reserved word and the other not; alone, only one of them
is cut, and together both are.  What comes out is the same, and so it is for unescaping.

So a key shows the keys of the dotted prefixes of its path: they are its own dotted
prefixes, and it has no others.

## Main definitions

* `SymbolPath.leads` — the dotted prefixes of a text.

## Main results

* `SymbolPath.escape_dot`, `SymbolPath.unescape_dot` — both sides of a dot are escaped, and
  unescaped, on their own.
* `SymbolPath.isKey_dot_iff` — a dotted text is a key just when both sides of the dot are.
* `SymbolPath.leads_escape` — the dotted prefixes of a key.
* `SymbolPath.escape_dotwise` — **escaping respects dots.**
-/

namespace ScopeIndex
namespace SymbolPath

open Separated

/-! ### Both sides of a dot -/

/-- What changes a text fragment by fragment changes both sides of a dot on their own. -/
theorem dotwise_of_fragmentwise {f : String → String} {g : List Char → List Char}
    (h : ∀ s, f s = String.ofList (Separated.join '.' ((split '.' s.toList).map g)))
    (a b : String) : f (a ++ "." ++ b) = f a ++ "." ++ f b := by
  rw [← String.toList_inj, toList_dot, h, h a, h b, toList_dot, join_map_split_append,
    String.toList_ofList, String.toList_ofList, String.toList_ofList]

theorem escape_dot (a b : String) : escape (a ++ "." ++ b) = escape a ++ "." ++ escape b :=
  dotwise_of_fragmentwise escape_eq a b

theorem unescape_dot (a b : String) :
    unescape (a ++ "." ++ b) = unescape a ++ "." ++ unescape b :=
  dotwise_of_fragmentwise unescape_eq a b

/-- Alone, `o.` is not cut and the reserved word is; the empty fragment stays in its place. -/
example : escape ("o." ++ "." ++ "constructor") = "o." ++ "." ++ " constructor" := by decide

/-- A dotted text is a key just when both sides of the dot are. -/
theorem isKey_dot_iff {a b : String} : IsKey (a ++ "." ++ b) ↔ IsKey a ∧ IsKey b := by
  rw [IsKey, toList_dot, split_append, List.forall_mem_append, ← IsKey, ← IsKey]

theorem isKey_escape (path : String) : IsKey (escape path) :=
  (escape_unescape_iff _).mp (congrArg escape (unescape_escape path))

/-! ### Dotted prefixes -/

/-- The dotted prefixes of a text: all of it, and what stands before each of its dots. -/
def leads (path : String) : Set String := {p | p = path ∨ ∃ rest, path = p ++ "." ++ rest}

/-- The dotted prefixes of a key are the keys of the dotted prefixes of its path. -/
theorem leads_escape (path : String) : leads (escape path) = escape '' leads path := by
  ext q
  constructor
  · rintro (rfl | ⟨rest, hrest⟩)
    · exact ⟨path, .inl rfl, rfl⟩
    · -- what stands before the dot of a key is a key, and so the key of its path
      have hkey : IsKey q := (isKey_dot_iff.mp (hrest ▸ isKey_escape path)).1
      refine ⟨unescape q, .inr ⟨unescape rest, ?_⟩, (escape_unescape_iff q).mpr hkey⟩
      rw [← unescape_dot, ← hrest, unescape_escape]
  · rintro ⟨p, rfl | ⟨rest, rfl⟩, rfl⟩
    · exact .inl rfl
    · exact .inr ⟨escape rest, escape_dot p rest⟩

/-- The same for the keys of a table and the paths that it was filled with. -/
theorem leads_keys (as : List Addition) :
    (SymbolTable.ofAdditions as).keys.map leads =
      (SymbolTable.ofAdditions as).paths.map fun p => escape '' leads p := by
  rw [SymbolTable.keys_ofAdditions, SymbolTable.paths_ofAdditions, List.map_map]
  exact List.map_congr_left fun p _ => leads_escape p

/-- **Escaping respects dots.**  Both sides of a dot are escaped, and unescaped, on their
own; whether or not a text is cut, it comes out as its fragments do; and the dotted prefixes
of a key, in a table or not, are the keys of the dotted prefixes of its path. -/
theorem escape_dotwise :
    (∀ a b, escape (a ++ "." ++ b) = escape a ++ "." ++ escape b) ∧
      (∀ a b, unescape (a ++ "." ++ b) = unescape a ++ "." ++ unescape b) ∧
      (∀ path, escape path = String.ofList (escapeFragments path.toList)) ∧
      (∀ key, unescape key = String.ofList (unescapeFragments key.toList)) ∧
      (∀ path, leads (escape path) = escape '' leads path) ∧
      ∀ as, (SymbolTable.ofAdditions as).keys.map leads =
        (SymbolTable.ofAdditions as).paths.map fun p => escape '' leads p :=
  ⟨escape_dot, unescape_dot, escape_eq, unescape_eq, leads_escape, leads_keys⟩

end SymbolPath
end ScopeIndex
