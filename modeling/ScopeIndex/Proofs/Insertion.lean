import Mathlib
import ScopeIndex.Proofs.Escaping
import ScopeIndex.Proofs.Step

/-!
# Where an occurrence goes

An occurrence is recorded in one of the open scopes, of which some of the innermost may be
skipped.  Here the open scopes are counted from the outermost, and which of them takes the
occurrence is said by what their tables hold.  Only one list of one table grows, by one
occurrence at its end; all else stays as it was, also in scopes that are closed already.

## Main definitions

* `ScopeStack.Knows` — the open scope at a position knows a path.
* `ScopeStack.Receives` — the open scope at a position takes an occurrence.
* `ScopeStack.Inserts` — one occurrence is inserted, and nothing else happens.

## Main results

* `ScopeStack.exists_receives` — the search from the inside out finds that position.
* `ScopeStack.record_inserts` — **the rule of insertion.**
-/

namespace ScopeIndex

theorem SymbolTable.contains_iff {t : SymbolTable} {path : String} :
    t.contains path = true ↔ SymbolPath.escape path ∈ t.keys := by
  rw [contains, get?, atKey?, List.lookup_isSome_iff, keys, List.mem_map]
  exact exists_congr fun e => and_congr_right fun _ => beq_iff_eq.trans eq_comm

namespace ScopeStack

/-- The open scope at a position, counted from the outermost, knows a path. -/
def Knows (s : ScopeStack) (path : String) (i : Nat) : Prop :=
  ∃ c, s.openScopes[i]? = some c ∧ c.table.contains path = true

/-- The open scope at a position takes an occurrence of a path.  The position `last` is the
innermost of those that are not skipped, and the flag tells whether the occurrence
declares. -/
inductive Receives (s : ScopeStack) (path : String) (last : Nat) : Bool → Nat → Prop
  /-- A declaring occurrence goes to the innermost scope. -/
  | declared : Receives s path last true last
  /-- Any other goes to the innermost scope that knows the path. -/
  | known {i : Nat} (hle : i ≤ last) (hknows : s.Knows path i)
      (hinner : ∀ j, i < j → j ≤ last → ¬ s.Knows path j) : Receives s path last false i
  /-- If there is none it goes to the innermost scope. -/
  | unknown (hnone : ∀ j ≤ last, ¬ s.Knows path j) : Receives s path last false last

/-- One occurrence of a path is inserted into the scope at place `k` among all scopes, and
nothing else happens. -/
structure Inserts (s s' : ScopeStack) (k : Nat) (path : String) (o : Occurrence) : Prop where
  /-- The same scopes are open. -/
  chain_eq : s'.chain = s.chain
  /-- No scope comes or goes. -/
  length_eq : s'.scopes.length = s.scopes.length
  /-- All other scopes, open or closed, stay as they were. -/
  others_eq : ∀ j ≠ k, s'.scopes[j]? = s.scopes[j]?
  /-- Of the scope itself only the table changes. -/
  frame_eq : s'.scopeAt k = { s.scopeAt k with table := (s'.scopeAt k).table }
  /-- The list of the path gets the occurrence at its end. -/
  get?_self : (s'.scopeAt k).table.get? path =
    some (((s.scopeAt k).table.get? path).getD [] ++ [o])
  /-- The lists of other paths stay as they were. -/
  get?_other : ∀ other ≠ path,
    (s'.scopeAt k).table.get? other = (s.scopeAt k).table.get? other
  /-- Keys keep their order, and a new one goes to the end. -/
  keys_eq : (s'.scopeAt k).table.keys = (s.scopeAt k).table.keys ++
    if o.declaring then [SymbolPath.escape path] else []

variable {s : ScopeStack} {path : String}

/-! ### Positions from the outermost -/

theorem getElem?_reverse_chain {m : Nat} (h : m < s.depth) :
    s.chain.reverse[s.depth - 1 - m]? = s.chain[m]? := by
  have hlt : s.depth - 1 - m < s.chain.length := by
    unfold depth at h ⊢
    omega
  have hback : s.chain.length - 1 - (s.depth - 1 - m) = m := by
    unfold depth at h ⊢
    omega
  rw [List.getElem?_reverse hlt, hback]

/-- Counted from the innermost, the open scope at a position knows what its table
contains. -/
theorem knows_iff {m k : Nat} (h : s.chain[m]? = some k) :
    s.Knows path (s.depth - 1 - m) ↔ (s.scopeAt k).table.contains path = true := by
  have hm : m < s.depth := (List.getElem?_eq_some_iff.mp h).1
  have hscope : s.openScopes[s.depth - 1 - m]? = some (s.scopeAt k) := by
    rw [openScopes, List.getElem?_map, getElem?_reverse_chain hm, h, Option.map_some]
  simp [Knows, hscope]

/-- The positions that are not skipped, from the innermost outwards. -/
theorem exists_inner_of_le {skip j : Nat} (hskip : skip < s.depth) (hj : j ≤ s.depth - 1 - skip) :
    ∃ m k, (s.chain.drop skip)[m]? = some k ∧ j = s.depth - 1 - (skip + m) := by
  have hlt : s.depth - 1 - j < s.chain.length := by
    unfold depth at hskip ⊢
    omega
  refine ⟨s.depth - 1 - j - skip, s.chain[s.depth - 1 - j], ?_, by omega⟩
  rw [List.getElem?_drop, show skip + (s.depth - 1 - j - skip) = s.depth - 1 - j by omega]
  exact List.getElem?_eq_getElem hlt

/-! ### The scope that takes an occurrence -/

/-- The search from the inside out finds the scope that takes an occurrence. -/
theorem exists_receives (path : String) (declaring : Bool) {skip : Nat} (h : skip < s.depth) :
    ∃ i k, s.Receives path (s.depth - 1 - skip) declaring i ∧ s.chain.reverse[i]? = some k ∧
      s.target path declaring skip = .ok k := by
  obtain ⟨k₀, ks, hdrop⟩ : ∃ k₀ ks, s.chain.drop skip = k₀ :: ks :=
    List.exists_cons_of_ne_nil (by simpa [List.drop_eq_nil_iff, depth] using h)
  have hlast : s.chain.reverse[s.depth - 1 - skip]? = some k₀ := by
    rw [getElem?_reverse_chain h, ← List.head?_drop, hdrop, List.head?_cons]
  rw [target_of_drop_cons hdrop, choose, ← hdrop]
  cases declaring with
  | true => exact ⟨_, k₀, .declared, hlast, rfl⟩
  | false =>
    cases hfind : (s.chain.drop skip).find? fun k => (s.scopeAt k).table.contains path with
    | none =>
      refine ⟨_, k₀, .unknown fun j hj hknows => ?_, hlast, rfl⟩
      obtain ⟨m, k, hk, rfl⟩ := exists_inner_of_le h hj
      rw [knows_iff (List.getElem?_drop ▸ hk)] at hknows
      exact List.find?_eq_none.mp hfind k (List.mem_of_getElem? hk) hknows
    | some k =>
      obtain ⟨hcontains, m, hm, rfl, hbefore⟩ := List.find?_eq_some_iff_getElem.mp hfind
      have hk : (s.chain.drop skip)[m]? = some (s.chain.drop skip)[m] := List.getElem?_eq_getElem hm
      rw [List.getElem?_drop] at hk
      have hdepth : skip + m < s.depth := (List.getElem?_eq_some_iff.mp hk).1
      refine ⟨s.depth - 1 - (skip + m), _, .known (by omega) ?_ ?_, ?_, rfl⟩
      · exact (knows_iff hk).mpr hcontains
      · -- a scope further in was looked at before
        intro j hlt hj hknows
        obtain ⟨m', k', hk', rfl⟩ := exists_inner_of_le h hj
        rw [knows_iff (List.getElem?_drop ▸ hk')] at hknows
        obtain ⟨hm', rfl⟩ := List.getElem?_eq_some_iff.mp hk'
        have hfirst := hbefore m' (by omega)
        rw [hknows] at hfirst
        cases hfirst
      · rw [getElem?_reverse_chain hdepth, hk]
        rfl

/-! ### What an insertion does -/

theorem inserts_modify (span : Span) {k : Nat} (hk : k < s.scopes.length) :
    s.Inserts (s.modify k (·.add path span)) k path
      ((s.scopeAt k).table.occurrence path span) := by
  have hself : (s.modify k (·.add path span)).scopeAt k = (s.scopeAt k).add path span := by
    rw [scopeAt_modify s k k _ hk, if_pos rfl]
  refine ⟨rfl, List.length_modify .., fun j hj => ?_, ?_, ?_, fun other hother => ?_, ?_⟩
  · rw [scopes_modify, List.getElem?_modify_ne _ _ (Ne.symm hj)]
  · rw [hself]
    rfl
  · rw [hself, Scope.add, SymbolTable.get?_add_self, SymbolTable.occurrence, SymbolTable.contains]
    cases (s.scopeAt k).table.get? path <;> rfl
  · rw [hself]
    exact SymbolTable.get?_add_of_ne _ (SymbolPath.escape_injective.ne hother) span
  · rw [hself, Scope.add, SymbolTable.keys_add, SymbolTable.occurrence]
    cases hknown : (s.scopeAt k).table.contains path with
    | true =>
      rw [if_pos (SymbolTable.contains_iff.mp hknown)]
      exact (List.append_nil _).symm
    | false =>
      rw [if_neg fun hmem => absurd (SymbolTable.contains_iff.mpr hmem) (by simp [hknown])]
      rfl

/-- **The rule of insertion.**  If fewer scopes are skipped than are open, an occurrence is
recorded: a declaring one in the innermost scope that is not skipped, any other in the
innermost of these that knows the path, or in the innermost if none does.  The occurrence
declares just when that scope did not know the path, it goes to the end of the list of the
path in the table of that scope, and nothing else changes in any scope, open or closed. -/
theorem record_inserts (s : ScopeStack) (path : String) (span : Span) (declaring : Bool)
    (skip : Int) (hskip : 0 ≤ skip) (hdepth : skip < s.depth) :
    ∃ i k o s', s.Receives path (s.depth - 1 - skip.toNat) declaring i ∧
      s.chain.reverse[i]? = some k ∧ (record path span declaring skip).run s = .ok o s' ∧
      o.span = span ∧ (o.declaring = true ↔ (s.scopeAt k).table.contains path = false) ∧
      s.Inserts s' k path o := by
  obtain ⟨skip, rfl⟩ := Int.eq_ofNat_of_zero_le hskip
  obtain ⟨i, k, hreceives, hk, htarget⟩ := s.exists_receives path declaring
    (by exact_mod_cast hdepth)
  have hmem : k ∈ s.chain := List.mem_reverse.mp (List.mem_of_getElem? hk)
  refine ⟨i, k, (s.scopeAt k).table.occurrence path span, s.modify k (·.add path span), hreceives,
    hk, ?_, rfl, ?_, inserts_modify span (s.bounded k hmem)⟩
  · rw [run_record, htarget]
  · simp [SymbolTable.occurrence]

end ScopeStack

/-! ### A name in two of three scopes -/

namespace Sample

/-- Three open scopes and a closed one.  All but the innermost know `x`. -/
def shadowingStack : ScopeStack :=
  let known : SymbolTable := ({} : SymbolTable).add "x" ⟨0, 1⟩
  ((ScopeStack.empty.push { owner := 1, type := "program", span := ⟨0, 90⟩, table := known }).push
    { owner := 2, type := "arrow_function", span := ⟨5, 9⟩, table := known }).dropInnermost.push
    { owner := 3, type := "function", span := ⟨10, 80⟩, table := known } |>.push
    { owner := 4, type := "method_definition", span := ⟨20, 60⟩ }

end Sample

theorem ScopeStack.record_inserts_shadowing :
    (0 : Int) ≤ 1 ∧ (1 : Int) < Sample.shadowingStack.depth ∧
      ∃ i k o s', Sample.shadowingStack.Receives "x" 1 false i ∧
        Sample.shadowingStack.chain.reverse[i]? = some k ∧
        (ScopeStack.record "x" ⟨30, 31⟩ false 1).run Sample.shadowingStack = .ok o s' ∧
        o.span = ⟨30, 31⟩ ∧
        (o.declaring = true ↔ (Sample.shadowingStack.scopeAt k).table.contains "x" = false) ∧
        Sample.shadowingStack.Inserts s' k "x" o :=
  ⟨by decide, by decide,
    ScopeStack.record_inserts Sample.shadowingStack "x" ⟨30, 31⟩ false 1 (by decide) (by decide)⟩

end ScopeIndex
