import Mathlib
import ScopeIndex.FileIndex
import ScopeIndex.Proofs.Json.Reading
import ScopeIndex.Proofs.Json.Writing

/-!
# What the interchange form of an index keeps

An index is handed on as JSON.  Of a scope that form has the symbols only, each with its
occurrences, and of an occurrence it has two or three items.  Here is what one can get back
from it: the *content* of an index, which is all of it but where its scopes lie and what
opened them.

Nothing of the content is lost on the way through a text, on one line or indented, as long
as no scope has a key twice; an object would keep only one of them.

## Main definitions

* `IndexContent` — what is handed on.
* `IndexContent.ofJson?` — the content that a JSON value has.

## Main results

* `FileIndex.plain_toJson` — the value that is written can be told from all others.
* `FileIndex.interchange` — both texts are JSON, and from either the content comes back.
-/

namespace ScopeIndex

/-! ### The content of an index -/

/-- What the interchange form of an index tells. -/
structure IndexContent where
  path : String
  digest : Option String
  /-- The symbols of each scope, in the order of opening. -/
  symbols : List (Members (List Occurrence))
  deriving DecidableEq

def Occurrence.ofJson? : Json → Option Occurrence
  | .list [.int start, .int stop] => some { span := ⟨start, stop⟩, declaring := false }
  | .list [.int start, .int stop, .bool true] => some { span := ⟨start, stop⟩, declaring := true }
  | _ => none

namespace IndexContent

/-- The symbols of a scope. -/
def symbols? (v : Json) : Option (Members (List Occurrence)) := do
  (← v.object?).mapM fun m => do
    return (m.1, ← (← m.2.list?).mapM Occurrence.ofJson?)

def digest? : Json → Option (Option String)
  | .null => some none
  | .text s => some (some s)
  | _ => none

/-- The content that a value has, if it has the form of an index. -/
def ofJson? (v : Json) : Option IndexContent := do
  let path ← (← v.get? "path").text?
  let digest ← digest? (← v.get? "file_hash")
  let symbols ← (← (← v.get? "scopes").list?).mapM symbols?
  return { path, digest, symbols }

end IndexContent

/-! ### From the value back to the content -/

/-- What can be got back from each item can be got back from all of them. -/
theorem mapM_map_eq_some {α β γ : Type} {write : α → β} {read : β → Option γ} {kept : α → γ}
    (h : ∀ a, read (write a) = some (kept a)) (as : List α) :
    (as.map write).mapM read = some (as.map kept) := by
  have hpure : read ∘ write = fun a => pure (kept a) := funext h
  rw [List.mapM_map, hpure, List.mapM_pure]
  rfl

theorem Occurrence.ofJson?_toJson (o : Occurrence) : ofJson? o.toJson = some o := by
  obtain ⟨⟨start, stop⟩, declaring⟩ := o
  cases declaring <;> rfl

theorem IndexContent.symbols?_toJson (s : IndexedScope) : symbols? s.toJson = some s.symbols := by
  refine (mapM_map_eq_some (fun e => ?_) s.symbols).trans (congrArg some (List.map_id _))
  obtain ⟨key, os⟩ := e
  have hos := mapM_map_eq_some Occurrence.ofJson?_toJson os
  rw [List.map_id'] at hos
  simp only [Json.list?, hos, Option.pure_def, Option.bind_eq_bind, Option.bind_some, id]

theorem IndexContent.digest?_toJson (digest : Option String) :
    digest? ((digest.map Json.text).getD .null) = some digest := by
  cases digest <;> rfl

theorem FileIndex.ofJson?_toJson (f : FileIndex) :
    IndexContent.ofJson? f.toJson =
      some { path := f.path, digest := f.digest, symbols := f.scopes.map (·.symbols) } := by
  have hpath : f.toJson.get? "path" = some (.text f.path) := by
    simp [toJson, Json.get?, Members.get?]
  have hdigest : f.toJson.get? "file_hash" = some ((f.digest.map Json.text).getD .null) := by
    simp [toJson, Json.get?, Members.get?]
  have hscopes : f.toJson.get? "scopes" = some (.list (f.scopes.map IndexedScope.toJson)) := by
    simp [toJson, Json.get?, Members.get?]
  have hsymbols := mapM_map_eq_some IndexContent.symbols?_toJson f.scopes
  simp only [IndexContent.ofJson?, hpath, hdigest, hscopes, Json.text?, Json.list?,
    IndexContent.digest?_toJson, hsymbols, Option.bind_eq_bind, Option.bind_some, Option.pure_def]

/-! ### Through a text -/

namespace Json

theorem Plain.read?_write {v : Json} (h : Plain v) (l : Layout) :
    read? (String.ofList (write l 0 v)) = some v :=
  read?_of_isTextOf (h.isTextOf_ofList l)

/-- What is written spells no other value; otherwise it would be read as both. -/
theorem Plain.isTextOf_iff {v : Json} (h : Plain v) (l : Layout) (w : Json) :
    IsTextOf w (String.ofList (write l 0 v)) ↔ w = v := by
  constructor
  · intro hw
    exact Option.some.inj ((read?_of_isTextOf hw).symm.trans (h.read?_write l))
  · rintro rfl
    exact h.isTextOf_ofList l

theorem Plain.isAscii_ofList {v : Json} (h : Plain v) (l : Layout) :
    IsAscii (String.ofList (write l 0 v)).toList := by
  rw [String.toList_ofList]
  exact h.isAscii_write l 0

end Json

theorem Occurrence.plain_toJson (o : Occurrence) : o.toJson.Plain := by
  refine .list fun v hv => ?_
  rcases List.mem_append.mp hv with hv | hv
  · rcases List.mem_pair.mp hv with rfl | rfl
    · exact .int _
    · exact .int _
  · split at hv
    · rw [List.mem_singleton.mp hv]
      exact .bool _
    · exact absurd hv List.not_mem_nil

theorem IndexedScope.plain_toJson {s : IndexedScope} (h : (Members.keys s.symbols).Nodup) :
    s.toJson.Plain := by
  refine .object ?_ fun m hm => ?_
  · rwa [Members.keys, List.map_map]
  · obtain ⟨e, -, rfl⟩ := List.mem_map.mp hm
    refine .list fun v hv => ?_
    obtain ⟨o, -, rfl⟩ := List.mem_map.mp hv
    exact o.plain_toJson

namespace FileIndex

theorem plain_toJson {f : FileIndex} (h : ∀ s ∈ f.scopes, (Members.keys s.symbols).Nodup) :
    f.toJson.Plain := by
  refine .object (by simp [Members.keys]) ?_
  refine List.forall_mem_cons.mpr ⟨.text _, List.forall_mem_cons.mpr ⟨?_, ?_⟩⟩
  · cases f.digest with
    | none => exact .null
    | some digest => exact .text digest
  · refine List.forall_mem_singleton.mpr (.list fun v hv => ?_)
    obtain ⟨s, hs, rfl⟩ := List.mem_map.mp hv
    exact IndexedScope.plain_toJson (h s hs)

/-- **The interchange form loses nothing of the content.**  The text on one line and the
indented one are JSON, and spell the same value and no other.  The path, the digest and the
symbols of every scope come back from it, with their order. -/
theorem interchange (f : FileIndex) (h : ∀ s ∈ f.scopes, (Members.keys s.symbols).Nodup) :
    (∀ text ∈ [f.toJson.compact, f.toJson.pretty 4],
      Json.IsAscii text.toList ∧ (∀ v, Json.IsTextOf v text ↔ v = f.toJson) ∧
        Json.read? text = some f.toJson) ∧
      IndexContent.ofJson? f.toJson =
        some { path := f.path, digest := f.digest, symbols := f.scopes.map (·.symbols) } := by
  have hplain := plain_toJson h
  refine ⟨fun text htext => ?_, f.ofJson?_toJson⟩
  obtain ⟨l, rfl⟩ : ∃ l, text = String.ofList (Json.write l 0 f.toJson) := by
    rcases List.mem_pair.mp htext with rfl | rfl
    · exact ⟨.line, rfl⟩
    · exact ⟨.indented 4, rfl⟩
  exact ⟨hplain.isAscii_ofList l, hplain.isTextOf_iff l, hplain.read?_write l⟩

/-- An index with names that need escapes, a symbol without occurrences and an empty scope. -/
def sample : FileIndex where
  path := "\x22π\x22\\\t😀.js"
  digest := none
  scopes := [
    { type := "program", span := ⟨0, 40⟩, depth := 0,
      symbols := [
        ("a.\u2028", [⟨⟨-3, 100000000000000000000⟩, true⟩, ⟨⟨7, 7⟩, false⟩, ⟨⟨9, 8⟩, true⟩]),
        ("", [])] },
    { type := "function", span := ⟨4, 9⟩, depth := 1, symbols := [] }]

theorem interchange_sample :
    (∀ s ∈ sample.scopes, (Members.keys s.symbols).Nodup) ∧
      (∀ text ∈ [sample.toJson.compact, sample.toJson.pretty 4],
        Json.IsAscii text.toList ∧ (∀ v, Json.IsTextOf v text ↔ v = sample.toJson) ∧
          Json.read? text = some sample.toJson) ∧
        IndexContent.ofJson? sample.toJson =
          some { path := sample.path, digest := none,
                 symbols := sample.scopes.map (·.symbols) } := by
  have hkeys : ∀ s ∈ sample.scopes, (Members.keys s.symbols).Nodup := by decide
  exact ⟨hkeys, interchange sample hkeys⟩

end FileIndex
end ScopeIndex
