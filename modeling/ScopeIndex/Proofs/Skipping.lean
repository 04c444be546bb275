import Mathlib
import ScopeIndex.Proofs.StackUse

/-!
# Skipped scopes

An occurrence may be recorded so that some of the innermost scopes are skipped.  Two
questions are asked of the stack for that: which scope lies so many levels out, and which
scope outside the skipped ones knows the path.  The first is refused if there is no such
scope.  The second is not: it cuts the open scopes at a position, and a position that is
negative counts from the other end.  So if more scopes are skipped than are open, the search
may come upon an outer scope, and if less than none are skipped it searches them all.

## Main definitions

* `ScopeStack.reach` — how many scopes are searched, from the outermost on.
* `ScopeStack.HeedsSkip` — an occurrence is recorded outside the skipped scopes or not at all.
* `ScopeStack.Strays` — the search comes upon a scope although none lies so many levels out.

## Main results

* `ScopeStack.find?_eq_none_iff`, `ScopeStack.exists_receives_of_find?` — what a search
  gives, whatever is skipped.
* `ScopeStack.record_heedsSkip_iff` — **when skipped scopes are left alone.**
-/

namespace ScopeIndex
namespace ScopeStack

variable {s : ScopeStack} {path : String} {span : Span} {declaring : Bool} {skip : Int}

/-! ### What a search looks at -/

/-- How many of the open scopes a search looks at, from the outermost on. -/
def reach (s : ScopeStack) (skip : Int) : Nat := Slice.bound s.depth (s.depth - skip)

theorem reach_le (s : ScopeStack) (skip : Int) : s.reach skip ≤ s.depth := Slice.bound_le _ _

theorem reach_of_neg (h : skip < 0) : s.reach skip = s.depth := by
  unfold reach Slice.bound
  split <;> omega

/-- If more scopes are skipped than are open, the scopes that are too many are counted from the
innermost again. -/
theorem reach_of_lt (h : s.depth < skip) : s.reach skip = (2 * s.depth - skip).toNat := by
  unfold reach Slice.bound
  split <;> omega

theorem reach_of_eq : s.reach s.depth = 0 := by
  unfold reach Slice.bound
  split <;> omega

/-- A search goes through the scopes within its reach, from the inside out. -/
theorem find?_eq_find?_drop (s : ScopeStack) (path : String) (skip : Int) :
    s.find? path skip = (s.chain.drop (s.depth - s.reach skip)).find? fun k =>
      (s.scopeAt k).table.contains path := by
  rw [find?, Slice.front, List.length_reverse, List.take_reverse, List.reverse_reverse]
  rfl

theorem Knows.lt_depth {i : Nat} (h : s.Knows path i) : i < s.depth := by
  obtain ⟨c, hc, -⟩ := h
  simpa [openScopes, depth] using (List.getElem?_eq_some_iff.mp hc).1

/-- A search gives nothing just when no scope within its reach knows the path. -/
theorem find?_eq_none_iff :
    s.find? path skip = none ↔ ∀ i < s.reach skip, ¬ s.Knows path i := by
  have hreach := s.reach_le skip
  rw [find?_eq_find?_drop, List.find?_eq_none]
  constructor
  · intro h i hi hknows
    have hskip : s.depth - s.reach skip < s.depth := by omega
    have hj : i ≤ s.depth - 1 - (s.depth - s.reach skip) := by omega
    obtain ⟨m, k, hk, rfl⟩ := exists_inner_of_le hskip hj
    rw [knows_iff (List.getElem?_drop ▸ hk)] at hknows
    exact h k (List.mem_of_getElem? hk) hknows
  · intro h k hk hcontains
    obtain ⟨m, hm⟩ := List.mem_iff_getElem?.mp hk
    rw [List.getElem?_drop] at hm
    have hlt : s.depth - s.reach skip + m < s.depth := (List.getElem?_eq_some_iff.mp hm).1
    exact h _ (by omega) ((knows_iff hm).mpr hcontains)

/-- A search gives the innermost scope within its reach that knows the path. -/
theorem exists_receives_of_find? {k : Nat} (h : s.find? path skip = some k) :
    ∃ i, s.Receives path (s.reach skip - 1) false i ∧ s.chain.reverse[i]? = some k := by
  have hreach : s.reach skip ≠ 0 := by
    intro hzero
    have hnone : s.find? path skip = none := find?_eq_none_iff.mpr (by simp [hzero])
    rw [hnone] at h
    cases h
  -- the same scopes are searched when those out of reach are skipped
  have hle := s.reach_le skip
  have hsame : s.find? path (s.depth - s.reach skip : Nat) = some k := by
    rw [find?_eq s path (Nat.sub_le ..), ← find?_eq_find?_drop, h]
  obtain ⟨i, k', hreceives, hk', htarget⟩ :=
    s.exists_receives path false (by omega : s.depth - s.reach skip < s.depth)
  rw [target, if_neg Bool.false_ne_true, hsame] at htarget
  obtain rfl : k = k' := Except.ok.inj htarget
  rw [show s.depth - 1 - (s.depth - s.reach skip) = s.reach skip - 1 by omega] at hreceives
  exact ⟨i, hreceives, hk'⟩

/-! ### Out of reach -/

/-- No open scope lies `skip` levels out. -/
def OutOfReach (s : ScopeStack) (skip : Int) : Prop := skip < 0 ∨ s.depth ≤ skip

/-- The search for the path comes upon a scope although no open scope lies `skip` levels out. -/
def Strays (s : ScopeStack) (path : String) (declaring : Bool) (skip : Int) : Prop :=
  declaring = false ∧
    ∃ i, s.Knows path i ∧ (skip < 0 ∨ s.depth < skip ∧ i + skip < 2 * s.depth)

theorem enclosing_of_outOfReach (h : s.OutOfReach skip) :
    s.enclosing skip = .error (.outOfReach skip) := by
  unfold enclosing
  split
  · rfl
  · have hlength : s.chain.length ≤ skip.toNat := by
      unfold OutOfReach depth at h
      omega
    rw [List.getElem?_eq_none hlength]

theorem Strays.outOfReach (h : s.Strays path declaring skip) : s.OutOfReach skip := by
  obtain ⟨-, i, -, hskip⟩ := h
  unfold OutOfReach
  omega

/-- Out of reach, the search strays just when a scope within its own reach knows the path. -/
theorem strays_iff (h : s.OutOfReach skip) :
    s.Strays path declaring skip ↔ declaring = false ∧ ∃ k, s.find? path skip = some k := by
  rw [Strays, ← Option.ne_none_iff_exists', ne_eq, find?_eq_none_iff]
  push Not
  refine and_congr_right fun _ => exists_congr fun i => ?_
  rw [and_comm]
  refine and_congr_left fun hknows => ?_
  have hlt := hknows.lt_depth
  rcases h with hneg | hle
  · rw [reach_of_neg hneg]
    omega
  · rcases hle.eq_or_lt with rfl | hlt'
    · rw [reach_of_eq]
      omega
    · rw [reach_of_lt hlt']
      omega

/-- An occurrence that does not stray is refused out of reach. -/
theorem target_of_not_strays (h : s.OutOfReach skip) (hstrays : ¬ s.Strays path declaring skip) :
    s.target path declaring skip = .error (.outOfReach skip) := by
  have hnone : (if declaring then none else s.find? path skip) = none := by
    cases declaring with
    | true => rfl
    | false =>
      cases hfind : s.find? path skip with
      | none => rfl
      | some k => exact absurd ((strays_iff h).mpr ⟨rfl, k, hfind⟩) hstrays
  rw [target, hnone]
  exact enclosing_of_outOfReach h

/-- **A search that strays** makes the occurrence go to the innermost scope that it looks at and
that knows the path, although all open scopes are skipped or less than none. -/
theorem exists_inserts_of_strays (h : s.Strays path declaring skip) (span : Span) :
    ∃ i k o s', s.Receives path (s.reach skip - 1) false i ∧ s.chain.reverse[i]? = some k ∧
      s.serve (.record path span declaring skip) = (.ok (.recorded o), s') ∧
      s.Inserts s' k path o ∧ (0 ≤ skip → k ∈ s.chain.take skip.toNat) := by
  have hout := h.outOfReach
  obtain ⟨rfl, k, hfind⟩ := (strays_iff hout).mp h
  obtain ⟨i, hreceives, hk⟩ := exists_receives_of_find? hfind
  have hmem : k ∈ s.chain := mem_chain_of_find? hfind
  have htarget : s.target path false skip = .ok k := by
    rw [target, if_neg Bool.false_ne_true, hfind]
  refine ⟨i, k, _, _, hreceives, hk, ?_, inserts_modify span (s.bounded k hmem), fun hskip => ?_⟩
  · rw [serve, run_record, htarget]
    rfl
  · have hall : s.chain.length ≤ skip.toNat := by
      unfold OutOfReach depth at hout
      omega
    rwa [List.take_of_length_le hall]

/-! ### Skipped scopes -/

/-- The occurrence is refused if no open scope lies `skip` levels out, and then the stack is
left as it was; and in no case do the skipped scopes get it. -/
structure HeedsSkip (s : ScopeStack) (path : String) (span : Span) (declaring : Bool)
    (skip : Int) : Prop where
  /-- Out of reach, the occurrence is refused. -/
  refuses : s.OutOfReach skip →
    s.serve (.record path span declaring skip) = (.error (.outOfReach skip), s)
  /-- The tables of the skipped scopes stay as they were. -/
  spares : ∀ k ∈ s.chain.take skip.toNat,
    ((s.serve (.record path span declaring skip)).2.scopeAt k).table = (s.scopeAt k).table

/-- Within reach the occurrence goes to a scope that is not skipped. -/
theorem exists_target_of_reach (path : String) (declaring : Bool) {n : Nat} (h : n < s.depth) :
    ∃ k ∈ s.chain.drop n, s.target path declaring n = .ok k := by
  obtain ⟨k, ks, hdrop⟩ : ∃ k ks, s.chain.drop n = k :: ks :=
    List.exists_cons_of_ne_nil (by simpa [List.drop_eq_nil_iff, depth] using h)
  exact ⟨s.choose path declaring k ks, hdrop ▸ s.choose_mem path declaring k ks,
    target_of_drop_cons hdrop path declaring⟩

theorem nodup_chain (s : ScopeStack) : s.chain.Nodup := s.descending.imp fun h => h.ne'

/-- Within reach the skipped scopes stay as they were. -/
theorem scopeAt_of_skipped (path : String) (span : Span) (declaring : Bool) {n j : Nat}
    (h : n < s.depth) (hj : j ∈ s.chain.take n) :
    (s.serve (.record path span declaring n)).2.scopeAt j = s.scopeAt j := by
  obtain ⟨k, hk, htarget⟩ := exists_target_of_reach path declaring h
  have hserve : (s.serve (.record path span declaring n)).2 = s.modify k (·.add path span) := by
    rw [serve, run_record, htarget]
    rfl
  have hne : k ≠ j := by
    rintro rfl
    exact List.disjoint_take_drop s.nodup_chain le_rfl hj hk
  rw [hserve, scopeAt_modify s k j _ (s.bounded j (List.mem_of_mem_take hj)), if_neg hne]

theorem heedsSkip_of_not_strays (h : ¬ s.Strays path declaring skip) :
    s.HeedsSkip path span declaring skip := by
  have hrefuses : s.OutOfReach skip →
      s.serve (.record path span declaring skip) = (.error (.outOfReach skip), s) := by
    intro hout
    rw [serve, run_record, target_of_not_strays hout h]
    rfl
  refine ⟨hrefuses, fun j hj => ?_⟩
  by_cases hout : s.OutOfReach skip
  · rw [hrefuses hout]
  · unfold OutOfReach at hout
    push Not at hout
    obtain ⟨n, rfl⟩ := Int.eq_ofNat_of_zero_le hout.1
    rw [Int.toNat_natCast] at hj
    rw [scopeAt_of_skipped path span declaring (by exact_mod_cast hout.2) hj]

/-- **When skipped scopes are left alone.**  Out of reach an occurrence is refused without a
change, and skipped scopes never get one, just when the search does not stray.  If it strays,
the occurrence is recorded in the innermost scope that it looks at and that knows the path; if
more scopes are skipped than are open, that is one of the skipped ones. -/
theorem record_heedsSkip_iff (s : ScopeStack) (path : String) (span : Span) (declaring : Bool)
    (skip : Int) :
    (s.HeedsSkip path span declaring skip ↔ ¬ s.Strays path declaring skip) ∧
      (s.Strays path declaring skip →
        ∃ i k o s', s.Receives path (s.reach skip - 1) false i ∧ s.chain.reverse[i]? = some k ∧
          s.serve (.record path span declaring skip) = (.ok (.recorded o), s') ∧
          s.Inserts s' k path o ∧ (0 ≤ skip → k ∈ s.chain.take skip.toNat)) := by
  refine ⟨⟨fun hheeds hstrays => ?_, heedsSkip_of_not_strays⟩, fun hstrays => ?_⟩
  · obtain ⟨i, k, o, s', -, -, hserve, -⟩ := exists_inserts_of_strays hstrays span
    rw [hheeds.refuses hstrays.outOfReach] at hserve
    cases hserve
  · exact exists_inserts_of_strays hstrays span

end ScopeStack

/-! ### Three scopes skipped where two are open -/

namespace Sample

/-- Two open scopes, the outer of which knows `x`. -/
def overrunStack : ScopeStack :=
  .afterCalls [.push 1 "program" ⟨0, 20⟩, .record "x" ⟨0, 1⟩ false 0,
    .push 2 "arrow_function" ⟨4, 18⟩]

end Sample

/-- With three scopes to skip, the search comes upon the outer of two. -/
theorem ScopeStack.record_not_heedsSkip_overrun :
    ¬ Sample.overrunStack.HeedsSkip "x" ⟨6, 7⟩ false 3 := by
  intro h
  exact absurd (h.refuses (.inr (by decide))) (by decide)

end ScopeIndex
