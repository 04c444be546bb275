import Mathlib
import ScopeIndex.Proofs.Escaping
import ScopeIndex.SymbolTable

/-!
# A table is its additions

A symbol table stores the key of a path and is asked for the path.  Keys stand for paths
one to one, so a table answers as if it stored the paths themselves: it is the list of the
additions made to it, sorted by path in the order in which paths came up first.

Additions may be mixed with snapshots, which are kept while the table is added to.

## Main definitions

* `Addition.occurrences` — what a list of additions says of a path.
* `Addition.listing` — all that a list of additions says, key by key.
* `TableCall`, `TableUse` — a call on a table, and a table in use.

## Main results

* `SymbolTable.entries_ofAdditions` — the entries of a table.
* `SymbolTable.get?_ofAdditions` — what a path looks up to.
* `TableUse.run_calls` — the answers of a table in use.
-/

namespace ScopeIndex

/-- An occurrence of a path that is added to a table. -/
structure Addition where
  path : String
  span : Span
  deriving DecidableEq, Repr

/-- Occurrences of one path, the first of which declares it. -/
def Occurrence.declareFirst : List Span → List Occurrence
  | [] => []
  | s :: ss => ⟨s, true⟩ :: ss.map fun s => ⟨s, false⟩

theorem Occurrence.declareFirst_concat {ss : List Span} (h : ss ≠ []) (s : Span) :
    declareFirst (ss ++ [s]) = declareFirst ss ++ [⟨s, false⟩] := by
  cases ss with
  | nil => exact absurd rfl h
  | cons r ss => simp [declareFirst]

namespace Addition

/-- The ranges that were added under a path, in order. -/
def spans (path : String) (as : List Addition) : List Span :=
  (as.filter fun a => a.path = path).map (·.span)

/-- The occurrences that were added under a path. -/
def occurrences (path : String) (as : List Addition) : List Occurrence :=
  Occurrence.declareFirst (spans path as)

/-- The paths that were added, each where it came up first. -/
def paths (as : List Addition) : List String := (as.map (·.path)).eraseDups

/-- The occurrences by key, in the order in which paths came up first. -/
def listing (as : List Addition) : List (String × List Occurrence) :=
  (paths as).map fun p => (SymbolPath.escape p, occurrences p as)

variable {as : List Addition} {a : Addition} {p : String}

theorem mem_paths : p ∈ paths as ↔ p ∈ as.map (·.path) := List.mem_eraseDups

theorem spans_ne_nil (h : p ∈ paths as) : spans p as ≠ [] := by
  obtain ⟨b, hb, rfl⟩ := List.mem_map.mp (mem_paths.mp h)
  have hmem : b.span ∈ spans b.path as :=
    List.mem_map_of_mem (List.mem_filter.mpr ⟨hb, by simp⟩)
  exact List.ne_nil_of_mem hmem

theorem paths_concat (as : List Addition) (a : Addition) :
    paths (as ++ [a]) = if a.path ∈ paths as then paths as else paths as ++ [a.path] := by
  have hremove : [a.path].removeAll (as.map (·.path)) =
      if a.path ∈ paths as then [] else [a.path] := by
    by_cases h : a.path ∈ as.map (·.path)
    · rw [if_pos (mem_paths.mpr h)]
      simpa [List.removeAll] using h
    · rw [if_neg (fun hp => h (mem_paths.mp hp))]
      simpa [List.removeAll] using h
  rw [paths, List.map_append, List.eraseDups_append, List.map_singleton, hremove]
  split
  · exact List.append_nil _
  · rfl

theorem spans_append (p : String) (as bs : List Addition) :
    spans p (as ++ bs) = spans p as ++ spans p bs := by
  rw [spans, List.filter_append, List.map_append, spans, spans]

theorem spans_concat (p : String) (as : List Addition) (a : Addition) :
    spans p (as ++ [a]) = spans p as ++ if a.path = p then [a.span] else [] := by
  rw [spans_append]
  by_cases h : a.path = p <;> simp [spans, h]

theorem occurrences_concat_of_ne (h : a.path ≠ p) :
    occurrences p (as ++ [a]) = occurrences p as := by
  rw [occurrences, spans_concat, if_neg h, List.append_nil, occurrences]

theorem occurrences_concat_known (h : a.path ∈ paths as) :
    occurrences a.path (as ++ [a]) = occurrences a.path as ++ [⟨a.span, false⟩] := by
  rw [occurrences, spans_concat, if_pos rfl, Occurrence.declareFirst_concat (spans_ne_nil h),
    occurrences]

theorem occurrences_concat_new (h : a.path ∉ paths as) :
    occurrences a.path (as ++ [a]) = [⟨a.span, true⟩] := by
  have hnil : spans a.path as = [] := by
    rw [spans, List.map_eq_nil_iff, List.filter_eq_nil_iff]
    intro b hb heq
    exact h (mem_paths.mpr (List.mem_map.mpr ⟨b, hb, by simpa using heq⟩))
  rw [occurrences, spans_concat, if_pos rfl, hnil]
  rfl

theorem nodup_paths (as : List Addition) : (paths as).Nodup := by
  induction as using List.reverseRecOn with
  | nil => exact .nil
  | append_singleton as a ih =>
    rw [paths_concat]
    split
    · exact ih
    · next h =>
      rw [← List.concat_eq_append]
      exact ih.concat h

theorem paths_of_nodup (h : (as.map (·.path)).Nodup) : paths as = as.map (·.path) := by
  induction as using List.reverseRecOn with
  | nil => rfl
  | append_singleton as a ih =>
    rw [List.map_append, List.nodup_append'] at h
    have hnew : a.path ∉ paths as := fun hp => h.2.2 (mem_paths.mp hp) List.mem_cons_self
    rw [paths_concat, if_neg hnew, ih h.1, List.map_append, List.map_singleton]

/-- Further additions under known paths bring up no new ones. -/
theorem paths_append_known {bs : List Addition} (h : (as.map (·.path)).Nodup)
    (hknown : ∀ b ∈ bs, b.path ∈ as.map (·.path)) :
    paths (as ++ bs) = as.map (·.path) := by
  have hnone : (bs.map (·.path)).removeAll (as.map (·.path)) = [] := by
    rw [List.removeAll, List.filter_eq_nil_iff]
    intro p hp
    obtain ⟨b, hb, rfl⟩ := List.mem_map.mp hp
    simpa using hknown b hb
  rw [paths, List.map_append, List.eraseDups_append, hnone, List.eraseDups_nil, List.append_nil]
  exact paths_of_nodup h

theorem keys_listing (as : List Addition) :
    (listing as).map (·.1) = (paths as).map SymbolPath.escape := by
  rw [listing, List.map_map]
  rfl

theorem nodup_keys_listing (as : List Addition) : ((listing as).map (·.1)).Nodup := by
  rw [keys_listing]
  exact (nodup_paths as).map SymbolPath.escape_injective

theorem mem_keys_listing : SymbolPath.escape p ∈ (listing as).map (·.1) ↔ p ∈ paths as := by
  rw [keys_listing, List.mem_map_of_injective SymbolPath.escape_injective]

end Addition

/-! ### Entries -/

namespace SymbolTable

open SymbolPath Addition

theorem insert_of_not_mem {key : String} {span : Span} {es : List (String × List Occurrence)}
    (h : key ∉ es.map (·.1)) : insert key span es = es ++ [(key, [⟨span, true⟩])] := by
  induction es with
  | nil => rfl
  | cons e es ih =>
    rw [List.map_cons, List.mem_cons, not_or] at h
    rw [insert, if_neg h.1, ih h.2]
    rfl

theorem insert_of_mem {key : String} {span : Span} {es : List (String × List Occurrence)}
    (hnodup : (es.map (·.1)).Nodup) (h : key ∈ es.map (·.1)) :
    insert key span es =
      es.map fun e => (e.1, e.2 ++ if key = e.1 then [⟨span, false⟩] else []) := by
  induction es with
  | nil => cases h
  | cons e es ih =>
    rw [List.map_cons, List.nodup_cons] at hnodup
    rw [insert, List.map_cons]
    by_cases hkey : key = e.1
    · -- no later entry has the key
      have hrest : es.map (fun e => (e.1, e.2 ++ if key = e.1 then [⟨span, false⟩] else [])) =
          es := by
        conv_rhs => rw [← List.map_id es]
        refine List.map_congr_left fun e' he' => ?_
        have hne : key ≠ e'.1 := fun heq => hnodup.1 (hkey ▸ heq ▸ List.mem_map_of_mem he')
        simp [hne]
      rw [if_pos hkey, hrest, if_pos hkey]
    · have hmem : key ∈ es.map (·.1) := by simpa [hkey] using h
      rw [if_neg hkey, ih hnodup.2 hmem, if_neg hkey, List.append_nil]

/-- The table that additions fill. -/
def ofAdditions (as : List Addition) : SymbolTable :=
  as.foldl (fun t a => t.add a.path a.span) empty

theorem ofAdditions_concat (as : List Addition) (a : Addition) :
    ofAdditions (as ++ [a]) = (ofAdditions as).add a.path a.span := by
  rw [ofAdditions, List.foldl_append]
  rfl

/-- **The entries of a table** are what its additions say, path by path. -/
theorem entries_ofAdditions (as : List Addition) : (ofAdditions as).entries = listing as := by
  induction as using List.reverseRecOn with
  | nil => rfl
  | append_singleton as a ih =>
    rw [ofAdditions_concat, add, ih]
    by_cases h : a.path ∈ Addition.paths as
    · -- the path keeps its place, and only its own list grows
      rw [insert_of_mem (nodup_keys_listing as) (mem_keys_listing.mpr h), listing, listing,
        paths_concat, if_pos h, List.map_map]
      refine List.map_congr_left fun p hp => ?_
      by_cases hpath : a.path = p
      · subst hpath
        simp [occurrences_concat_known h]
      · have hkey : escape a.path ≠ escape p := fun heq => hpath (escape_injective heq)
        simp [occurrences_concat_of_ne hpath, hkey]
    · have hold : (Addition.paths as).map (fun p => (escape p, occurrences p (as ++ [a]))) =
          listing as := by
        refine List.map_congr_left fun p hp => ?_
        rw [occurrences_concat_of_ne fun heq => h (heq ▸ hp)]
      rw [insert_of_not_mem (mt mem_keys_listing.mp h), listing.eq_def (as ++ [a]), paths_concat,
        if_neg h, List.map_append, List.map_singleton, occurrences_concat_new h, hold]

theorem keys_ofAdditions (as : List Addition) :
    (ofAdditions as).keys = (Addition.paths as).map escape := by
  rw [keys, entries_ofAdditions, keys_listing]

theorem paths_ofAdditions (as : List Addition) :
    (ofAdditions as).paths = Addition.paths as := by
  rw [paths, keys_ofAdditions, List.map_map]
  conv_rhs => rw [← List.map_id (Addition.paths as)]
  exact List.map_congr_left fun p _ => unescape_escape p

theorem size_ofAdditions (as : List Addition) :
    (ofAdditions as).size = (Addition.paths as).length := by
  rw [size, entries_ofAdditions, listing, List.length_map]

/-- What a path looks up to: what was added under it, or nothing if it never was. -/
theorem get?_ofAdditions (as : List Addition) (p : String) :
    (ofAdditions as).get? p =
      if p ∈ as.map (·.path) then some (occurrences p as) else none := by
  rw [get?, atKey?, entries_ofAdditions]
  split
  · next h =>
    obtain ⟨before, after, hsplit⟩ := List.append_of_mem (mem_paths.mpr h)
    have hnodup := nodup_paths as
    rw [hsplit, List.nodup_middle, List.nodup_cons] at hnodup
    refine List.lookup_eq_some_iff.mpr ⟨before.map fun q => (escape q, occurrences q as),
      after.map fun q => (escape q, occurrences q as), ?_, ?_⟩
    · rw [listing, hsplit, List.map_append, List.map_cons]
    · intro e he
      obtain ⟨q, hq, rfl⟩ := List.mem_map.mp he
      -- an earlier path has another key
      have hne : escape p ≠ escape q := by
        intro heq
        rw [escape_injective heq] at hnodup
        exact hnodup.1 (List.mem_append_left _ hq)
      exact bne_iff_ne.mpr hne
  · next h =>
    rw [List.lookup_eq_none_iff]
    intro e he
    have hne : escape p ≠ e.1 := by
      intro heq
      exact h (mem_paths.mp (mem_keys_listing.mp (heq ▸ List.mem_map_of_mem he)))
    exact bne_iff_ne.mpr hne

end SymbolTable

/-! ### A table in use -/

/-- A call on a table that may change it or keep what it holds. -/
inductive TableCall where
  | add (path : String) (span : Span)
  | snapshot
  deriving DecidableEq, Repr

/-- What a call adds. -/
def TableCall.addition? : TableCall → Option Addition
  | add path span => some ⟨path, span⟩
  | snapshot => none

/-- A table with the snapshots that were taken of it, oldest first. -/
structure TableUse where
  table : SymbolTable := .empty
  snapshots : List (List (String × List Occurrence)) := []
  deriving DecidableEq, Repr

namespace TableUse

/-- One call. -/
def step (u : TableUse) : TableCall → TableUse
  | .add path span => { u with table := u.table.add path span }
  | .snapshot => { u with snapshots := u.snapshots ++ [u.table.entries] }

/-- A new table after some calls. -/
def run (calls : List TableCall) : TableUse := calls.foldl step {}

theorem run_append (before after : List TableCall) :
    run (before ++ after) = after.foldl step (run before) := List.foldl_append

/-- Snapshots have no part in what the table holds. -/
theorem table_run (calls : List TableCall) :
    (run calls).table = .ofAdditions (calls.filterMap TableCall.addition?) := by
  induction calls using List.reverseRecOn with
  | nil => rfl
  | append_singleton calls c ih =>
    rw [run_append, List.filterMap_append]
    cases c with
    | add path span =>
      refine Eq.trans ?_ (SymbolTable.ofAdditions_concat _ ⟨path, span⟩).symm
      rw [← ih]
      rfl
    | snapshot =>
      refine Eq.trans ih ?_
      rw [show [TableCall.snapshot].filterMap TableCall.addition? = [] from rfl, List.append_nil]

theorem length_snapshots_run (calls : List TableCall) :
    (run calls).snapshots.length = calls.count .snapshot := by
  induction calls using List.reverseRecOn with
  | nil => rfl
  | append_singleton calls c ih =>
    rw [run_append, List.count_append, ← ih]
    cases c <;> simp [step]

/-- Calls leave the snapshots that were taken before them alone. -/
theorem exists_snapshots_foldl (calls : List TableCall) : ∀ u : TableUse,
    ∃ later, (calls.foldl step u).snapshots = u.snapshots ++ later := by
  induction calls with
  | nil => intro u; exact ⟨[], (List.append_nil _).symm⟩
  | cons c calls ih =>
    intro u
    obtain ⟨later, hlater⟩ := ih (u.step c)
    cases c with
    | add path span => exact ⟨later, hlater⟩
    | snapshot => exact ⟨u.table.entries :: later, hlater.trans (List.append_assoc ..)⟩

/-- A snapshot lists what was added before it, whatever is added later. -/
theorem getElem?_snapshots_run (before after : List TableCall) :
    (run (before ++ .snapshot :: after)).snapshots[before.count .snapshot]? =
      some (Addition.listing (before.filterMap TableCall.addition?)) := by
  obtain ⟨later, hlater⟩ := exists_snapshots_foldl after ((run before).step .snapshot)
  rw [run_append, List.foldl_cons, hlater, step, ← length_snapshots_run, List.append_assoc,
    List.getElem?_append_right le_rfl, Nat.sub_self, table_run, SymbolTable.entries_ofAdditions]
  rfl

/-- **A table answers by what was added to it.**  A path looks up to the ranges that were
added under it, in order, the first one declaring, and to nothing if it never was; the
paths are those that were added, each where it came up first; and each snapshot that was
taken lists the keys of the paths added before it with what they looked up to then. -/
theorem run_calls (calls : List TableCall) :
    let table := (run calls).table
    let as := calls.filterMap TableCall.addition?
    (∀ p, table.get? p = none ↔ ∀ a ∈ as, a.path ≠ p) ∧
      (∀ p os, table.get? p = some os →
        os = Occurrence.declareFirst ((as.filter fun a => a.path = p).map (·.span))) ∧
      (∀ p, table.contains p = true ↔ table.get? p ≠ none) ∧
      table.paths = (as.map (·.path)).eraseDups ∧
      table.size = (as.map (·.path)).eraseDups.length ∧
      ∀ before after, calls = before ++ .snapshot :: after →
        (run calls).snapshots[before.count .snapshot]? =
          some (Addition.listing (before.filterMap TableCall.addition?)) := by
  intro table as
  have hget : ∀ p, table.get? p =
      if p ∈ as.map (·.path) then some (Addition.occurrences p as) else none := by
    intro p
    rw [← SymbolTable.get?_ofAdditions, ← table_run]
  refine ⟨fun p => ?_, fun p os h => ?_, fun p => ?_, ?_, ?_, ?_⟩
  · rw [hget, ite_eq_right_iff, ← not_iff_not]
    simp
  · rw [hget] at h
    split at h
    · cases h
      rfl
    · cases h
  · rw [SymbolTable.contains, Option.isSome_iff_ne_none]
  · rw [← Addition.paths, ← SymbolTable.paths_ofAdditions, ← table_run]
  · rw [← Addition.paths, ← SymbolTable.size_ofAdditions, ← table_run]
  · rintro before after rfl
    exact getElem?_snapshots_run before after

end TableUse
end ScopeIndex
