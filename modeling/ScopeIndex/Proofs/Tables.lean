import Mathlib
import ScopeIndex.Index.Document
import ScopeIndex.Proofs.Escaping
import ScopeIndex.Proofs.Step

/-!
# Well-formed scopes

Tables are only ever added to.  An addition puts an occurrence that declares into a new
list, or one that does not behind the others, and stores it under the key of a path; so
keys differ, every key is the key of a path, and each list starts with its only
declaration.  Whatever decides on scopes, a pass adds to tables and does nothing else to
them.  Keys give their paths back, so the paths that a listing displays differ too, and
each looks up to what stands on its line.

## Main definitions

* `SymbolTable.WellFormed` — what additions keep.
* `IndexedScope.WellFormed` — what can be relied on in a finished scope.

## Main results

* `SymbolTable.WellFormed.add` — an addition keeps it.
* `Pass.across_wellFormed` — so does a pass.
* `Job.indexTree_wellFormed` — every scope of every index is well-formed.
-/

namespace ScopeIndex

/-- The first occurrence declares, and no later one does. -/
def DeclaredFirst (os : List Occurrence) : Prop :=
  ∃ first rest, os = first :: rest ∧ first.declaring = true ∧ ∀ o ∈ rest, o.declaring = false

theorem DeclaredFirst.singleton (span : Span) : DeclaredFirst [⟨span, true⟩] :=
  ⟨_, [], rfl, rfl, fun _ h => nomatch h⟩

theorem DeclaredFirst.concat {os : List Occurrence} (h : DeclaredFirst os) (span : Span) :
    DeclaredFirst (os ++ [⟨span, false⟩]) := by
  obtain ⟨first, rest, rfl, hfirst, hrest⟩ := h
  refine ⟨first, rest ++ [⟨span, false⟩], rfl, hfirst, fun o ho => ?_⟩
  rcases List.mem_append.mp ho with ho | ho
  · exact hrest o ho
  · rw [List.mem_singleton.mp ho]

/-! ### Tables -/

namespace SymbolTable

/-- What additions keep. -/
structure WellFormed (t : SymbolTable) : Prop where
  /-- Every list starts with its only declaration. -/
  declared : ∀ e ∈ t.entries, DeclaredFirst e.2
  /-- The keys differ. -/
  nodup : t.keys.Nodup
  /-- Every key is the key of a path. -/
  keyed : ∀ k ∈ t.keys, k ∈ Set.range SymbolPath.escape

theorem declared_insert {key : String} {span : Span} {es : List (String × List Occurrence)}
    (h : ∀ e ∈ es, DeclaredFirst e.2) : ∀ e ∈ insert key span es, DeclaredFirst e.2 := by
  induction es with
  | nil =>
    intro e he
    rw [insert, List.mem_singleton] at he
    rw [he]
    exact .singleton span
  | cons e es ih =>
    obtain ⟨k, os⟩ := e
    obtain ⟨hos, hes⟩ := List.forall_mem_cons.mp h
    rw [insert]
    split
    · exact List.forall_mem_cons.mpr ⟨hos.concat span, hes⟩
    · exact List.forall_mem_cons.mpr ⟨hos, ih hes⟩

theorem WellFormed.empty : WellFormed {} where
  declared := fun _ h => nomatch h
  nodup := .nil
  keyed := fun _ h => nomatch h

/-- An addition to a well-formed table leaves it well-formed. -/
theorem WellFormed.add {t : SymbolTable} (h : t.WellFormed) (path : String) (span : Span) :
    (t.add path span).WellFormed where
  declared := declared_insert h.declared
  nodup := by
    rw [keys_add]
    split
    · exact h.nodup
    · next hnew =>
      rw [← List.concat_eq_append]
      exact h.nodup.concat hnew
  keyed := by
    intro k hk
    rw [keys_add] at hk
    split at hk
    · exact h.keyed k hk
    · rcases List.mem_append.mp hk with hk | hk
      · exact h.keyed k hk
      · rw [List.mem_singleton.mp hk]
        exact Set.mem_range_self path

/-- In a well-formed table an entry is found under its key. -/
theorem WellFormed.atKey?_of_mem {t : SymbolTable} (h : t.WellFormed) {k : String}
    {os : List Occurrence} (hmem : (k, os) ∈ t.entries) : t.atKey? k = some os := by
  obtain ⟨before, after, hsplit⟩ := List.append_of_mem hmem
  refine List.lookup_eq_some_iff.mpr ⟨before, after, hsplit, fun e he => ?_⟩
  have hnodup := h.nodup
  rw [keys, hsplit, List.map_append, List.map_cons, List.nodup_append'] at hnodup
  -- a key before the entry differs from the key of the entry
  have hne : k ≠ e.1 := fun heq =>
    hnodup.2.2 (List.mem_map_of_mem he) (heq ▸ List.mem_cons_self)
  exact bne_iff_ne.mpr hne

end SymbolTable

/-! ### Finished scopes -/

namespace IndexedScope

/-- The paths that a listing displays. -/
def paths (s : IndexedScope) : List String := s.symbols.map fun e => SymbolPath.unescape e.1

/-- The line of a path in a listing, with the occurrences it looks up to. -/
def line (s : IndexedScope) (path : String) : String :=
  s.indent ++ "  " ++ path ++ ": " ++
    ", ".intercalate (((s.lookup path).getD []).map Occurrence.listing)

/-- What can be relied on in a finished scope. -/
structure WellFormed (s : IndexedScope) : Prop where
  /-- Every list starts with its only declaration. -/
  declared : ∀ e ∈ s.symbols, DeclaredFirst e.2
  /-- The keys differ. -/
  keys_nodup : (s.symbols.map (·.1)).Nodup
  /-- Every key is the key of a path. -/
  keyed : ∀ e ∈ s.symbols, e.1 ∈ Set.range SymbolPath.escape
  /-- The path of a key looks up to what is stored under the key. -/
  lookup_unescape : ∀ e ∈ s.symbols, s.lookup (SymbolPath.unescape e.1) = some e.2
  /-- The displayed paths differ. -/
  paths_nodup : s.paths.Nodup
  /-- Behind the line of the scope, each displayed path stands with what it looks up to.
  -/
  listing_tail : s.listing.tail = s.paths.map s.line

/-- A scope with a well-formed table is well-formed. -/
theorem wellFormed_of_table {s : IndexedScope} {t : SymbolTable} (hs : s.symbols = t.entries)
    (h : t.WellFormed) : s.WellFormed := by
  have hkeys : s.symbols.map (·.1) = t.keys := by rw [hs, SymbolTable.keys]
  have hkeyed : ∀ e ∈ s.symbols, e.1 ∈ Set.range SymbolPath.escape := fun e he =>
    h.keyed e.1 (hkeys ▸ List.mem_map_of_mem he)
  have hescape : ∀ e ∈ s.symbols, SymbolPath.escape (SymbolPath.unescape e.1) = e.1 := by
    intro e he
    obtain ⟨path, hpath⟩ := hkeyed e he
    rw [← hpath, SymbolPath.unescape_escape]
  have hlookup : ∀ e ∈ s.symbols, s.lookup (SymbolPath.unescape e.1) = some e.2 := by
    intro e he
    rw [lookup, hescape e he, hs]
    exact h.atKey?_of_mem (hs ▸ he)
  refine ⟨hs ▸ h.declared, hkeys ▸ h.nodup, hkeyed, hlookup, ?_, ?_⟩
  · -- equal paths have equal keys
    have hpaths : s.paths.map SymbolPath.escape = t.keys := by
      rw [paths, List.map_map, ← hkeys]
      exact List.map_congr_left hescape
    exact List.Nodup.of_map SymbolPath.escape (hpaths ▸ h.nodup)
  · rw [listing, List.tail_cons, paths, List.map_map]
    refine List.map_congr_left fun e he => ?_
    simp only [Function.comp, line, hlookup e he, Option.getD_some]

end IndexedScope

/-! ### Passes -/

namespace ScopeStack

/-- All tables are well-formed. -/
def WellFormed (s : ScopeStack) : Prop := ∀ c ∈ s.scopes, c.table.WellFormed

theorem WellFormed.push {s : ScopeStack} (h : s.WellFormed) (l : Label) :
    (s.push (.ofLabel l)).WellFormed := by
  intro c hc
  rcases List.mem_append.mp hc with hc | hc
  · exact h c hc
  · rw [List.mem_singleton.mp hc]
    exact .empty

theorem WellFormed.modify {s : ScopeStack} (h : s.WellFormed) (i : Nat) {f : Scope → Scope}
    (hf : ∀ c, c.table.WellFormed → (f c).table.WellFormed) : (s.modify i f).WellFormed := by
  intro c hc
  obtain ⟨j, hj, rfl⟩ := List.getElem_of_mem hc
  simp only [scopes_modify, List.getElem_modify]
  split
  · exact hf _ (h _ (List.getElem_mem _))
  · exact h _ (List.getElem_mem _)

theorem WellFormed.edit {s s' : ScopeStack} (h : s.WellFormed) (he : Edit s s') :
    s'.WellFormed := by
  cases he with
  | keep => exact h
  | add i path span => exact h.modify i fun _ hc => hc.add path span
  | context i g => exact h.modify i fun _ hc => hc

end ScopeStack

/-- A pass keeps tables well-formed, whatever decides on scopes. -/
theorem Pass.across_wellFormed {job : Job} {f : Forest} {p p' : Pass} (h : across job f p = .ok p')
    (hp : p.stack.WellFormed) : p'.stack.WellFormed :=
  across_induction (fun _ l hs => hs.push l) (fun _ _ he hs => hs.edit he) (fun _ hs => hs)
    f p p' h hp

/-- **Every scope of every index is well-formed**, whatever decides on scopes. -/
theorem Job.indexTree_wellFormed (job : Job) (tree : Tree) (scopes : List IndexedScope)
    (h : (job.indexTree tree).result = .ok scopes) : ∀ s ∈ scopes, s.WellFormed := by
  obtain ⟨p, hp, rfl⟩ := exists_run_of_indexTree h
  have hwalk := (Pass.run_eq_ok_iff.mp hp).1
  have hstack : p.stack.WellFormed := Pass.across_wellFormed hwalk fun _ hc => nomatch hc
  intro s hs
  obtain ⟨c, hc, rfl⟩ := List.mem_map.mp hs
  exact IndexedScope.wellFormed_of_table rfl (hstack c hc)

/-! ### A reserved name -/

namespace Sample

/-- A source that names the reserved word twice. -/
def reservedSource : Source := .ofText "constructor=constructor"

/-- Its tree. -/
def reservedTree : Tree :=
  ⟨{ type := "program", span := ⟨0, 23⟩ },
    .cons { type := "identifier", span := ⟨0, 11⟩, field := some "left" } .nil <|
    .cons { type := "identifier", span := ⟨12, 23⟩, field := some "right" } .nil .nil⟩

/-- Its index, with a blank in front of the key. -/
def reservedScopes : List IndexedScope :=
  [{ type := "program", span := ⟨0, 23⟩, depth := 0
     symbols := [(" constructor", [⟨⟨0, 11⟩, true⟩, ⟨⟨12, 23⟩, false⟩])] }]

end Sample

theorem Job.indexTree_wellFormed_reserved :
    ((Job.ofRules Sample.reservedSource "c.js" ⟨false, "?", .ofTypes ["program"]⟩).indexTree
        Sample.reservedTree).result = .ok Sample.reservedScopes ∧
      ∀ s ∈ Sample.reservedScopes, s.WellFormed := by
  have h : ((Job.ofRules Sample.reservedSource "c.js" ⟨false, "?", .ofTypes ["program"]⟩).indexTree
      Sample.reservedTree).result = .ok Sample.reservedScopes := by
    rw [Job.indexTree, Pass.run, Pass.walk_eq]
    decide +kernel
  exact ⟨h, Job.indexTree_wellFormed _ _ _ h⟩

end ScopeIndex
