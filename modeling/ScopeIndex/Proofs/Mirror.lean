import Mathlib
import ScopeIndex.Proofs.Reading
import ScopeIndex.Proofs.Step

/-!
# Stacks that mirror a lineage

While a node is being visited, the stack of scopes holds nothing that cannot be read off
the node's lineage and the sites before it: the open scopes are those of the lineage,
the scopes ever opened are those of the sites, and the context of each is made of the
names of the object literals of the lineage that are read in it.  Each operation on the
stack keeps this so.

## Main definitions

* `Job.scopeOf` — the scope of a site.
* `Job.Mirrors` — what a stack holds.

## Main results

* `Job.Mirrors.push`, `Job.Mirrors.drop` — opening and closing a scope.
* `Job.Mirrors.record` — recording a mention.
* `Job.Mirrors.nest`, `Job.Mirrors.unnest` — adding a name to a context and taking it
  off.
-/

namespace ScopeIndex
namespace Job

variable (job : Job)

/-! ### Lineages -/

theorem scopeIds_cons_of_opens {t : Tree} (ts : List Tree) (h : job.opens t.label = true) :
    job.scopeIds (t :: ts) = t.label.id :: job.scopeIds ts := by
  simp [scopeIds, h]

theorem scopeIds_cons_of_not_opens {t : Tree} (ts : List Tree) (h : job.opens t.label = false) :
    job.scopeIds (t :: ts) = job.scopeIds ts := by
  simp [scopeIds, h]

theorem scopeIds_subset_cons (t : Tree) (ts : List Tree) :
    job.scopeIds ts ⊆ job.scopeIds (t :: ts) :=
  (((List.sublist_cons_self t ts).filter _).map _).subset

theorem literalName?_of_kind_ne {s : Site} (h : s.kind ≠ .objectLiteral) :
    job.literalName? s = none := by
  simp [literalName?, h]

theorem contextOf_cons_of_none {t : Tree} {ts : List Tree} (h : job.literalName? ⟨t, ts⟩ = none)
    (scope : Option Nat) : job.contextOf scope (t :: ts) = job.contextOf scope ts := by
  simp [contextOf, h]

theorem contextOf_cons_of_head {t : Tree} {ts : List Tree} {name : String} {scope : Option Nat}
    (h : job.literalName? ⟨t, ts⟩ = some name) (hs : (job.scopeIds (t :: ts)).head? = scope) :
    job.contextOf scope (t :: ts) = job.contextOf scope ts ++ [name] := by
  simp [contextOf, h, hs]

theorem contextOf_cons_of_head_ne {t : Tree} {ts : List Tree} {scope : Option Nat}
    (hs : (job.scopeIds (t :: ts)).head? ≠ scope) :
    job.contextOf scope (t :: ts) = job.contextOf scope ts := by
  simp [contextOf, hs]

/-- In a scope that is not open no object literal is being read. -/
theorem contextOf_eq_nil {k : Nat} : ∀ {lineage : List Tree}, k ∉ job.scopeIds lineage →
    job.contextOf (some k) lineage = [] := by
  intro lineage
  induction lineage with
  | nil => intro _; rfl
  | cons t ts ih =>
    intro hk
    have hts : k ∉ job.scopeIds ts := fun hm => hk (job.scopeIds_subset_cons t ts hm)
    have hhead : (job.scopeIds (t :: ts)).head? ≠ some k := fun h => hk (List.mem_of_head? h)
    rw [contextOf_cons_of_head_ne job hhead, ih hts]

/-! ### The relation -/

/-- The scope that a site has opened, while `above` is the lineage whose object literals
are being read. -/
def scopeOf (above : List Tree) (tables : Nat → SymbolTable) (s : Site) : Scope where
  owner := s.id
  type := s.node.label.type
  span := s.node.label.span
  depth := (job.scopeIds s.above).length
  table := tables s.id
  context := job.contextOf (some s.id) above

/-- A node has no part in the contexts of scopes other than its innermost one. -/
theorem scopeOf_cons_of_ne {t : Tree} {ts : List Tree} (tables : Nat → SymbolTable) {k : Nat}
    {s : Site} (hhead : (job.scopeIds (t :: ts)).head? = some k) (hne : s.id ≠ k) :
    job.scopeOf (t :: ts) tables s = job.scopeOf ts tables s := by
  have hother : (job.scopeIds (t :: ts)).head? ≠ some s.id := by
    rw [hhead]
    exact fun heq => hne (Option.some.inj heq).symm
  simp [scopeOf, contextOf_cons_of_head_ne job hother]

/-- The stack when the scopes of `lineage` are open, the object literals of `above` are
being read, `opened` are the sites that have opened a scope, `tables` holds what they
have recorded, and the nodes with numbers from `n` on are still to come. -/
structure Mirrors (n : Nat) (lineage above : List Tree) (opened : List Site)
    (tables : Nat → SymbolTable) (stack : ScopeStack) : Prop where
  /-- All scopes are those of the sites that opened one. -/
  scopes : stack.scopes = opened.map (job.scopeOf above tables)
  /-- The open scopes are those of the lineage. -/
  owners : stack.owners = (job.scopeIds lineage).map fun k : Nat => (k : Int)
  /-- Sites are numbered in the order in which they opened their scopes. -/
  ascending : opened.Pairwise fun s t => s.id < t.id
  /-- No site is still to come. -/
  below : ∀ s ∈ opened, s.id < n
  /-- Nothing is recorded for a node that is still to come. -/
  fresh : ∀ k, n ≤ k → tables k = {}

namespace Mirrors

variable {job} {n : Nat} {lineage above : List Tree} {opened : List Site}
  {tables : Nat → SymbolTable} {stack : ScopeStack}

/-- Before the first visit. -/
theorem empty (n : Nat) : job.Mirrors n [] [] [] (fun _ => {}) .empty where
  scopes := rfl
  owners := rfl
  ascending := .nil
  below := fun _ h => nomatch h
  fresh := fun _ _ => rfl

theorem mono {m : Nat} (h : job.Mirrors n lineage above opened tables stack) (hm : n ≤ m) :
    job.Mirrors m lineage above opened tables stack where
  scopes := h.scopes
  owners := h.owners
  ascending := h.ascending
  below := fun s hs => Nat.lt_of_lt_of_le (h.below s hs) hm
  fresh := fun k hk => h.fresh k (Nat.le_trans hm hk)

/-- Only the contexts depend on which object literals are being read. -/
theorem congr_above {above' : List Tree} (h : job.Mirrors n lineage above opened tables stack)
    (hc : ∀ k, job.contextOf (some k) above' = job.contextOf (some k) above) :
    job.Mirrors n lineage above' opened tables stack where
  scopes := by
    rw [h.scopes]
    apply List.map_congr_left
    intro s _
    simp [scopeOf, hc]
  owners := h.owners
  ascending := h.ascending
  below := h.below
  fresh := h.fresh

theorem depth_eq (h : job.Mirrors n lineage above opened tables stack) :
    stack.depth = (job.scopeIds lineage).length := by
  rw [← stack.length_owners, h.owners, List.length_map]

/-- An open scope is that of a site. -/
theorem site_at (h : job.Mirrors n lineage above opened tables stack) {i : Nat}
    (hi : i ∈ stack.chain) :
    ∃ s, opened[i]? = some s ∧ stack.scopeAt i = job.scopeOf above tables s := by
  have hlt : i < opened.length := by
    have := stack.bounded i hi
    rwa [h.scopes, List.length_map] at this
  refine ⟨opened[i], List.getElem?_eq_getElem hlt, ?_⟩
  rw [ScopeStack.scopeAt, h.scopes, List.getElem?_map, List.getElem?_eq_getElem hlt]
  rfl

/-- The numbers of the open scopes, by their positions. -/
theorem scopeIds_eq (h : job.Mirrors n lineage above opened tables stack) :
    job.scopeIds lineage = stack.chain.map fun i => (stack.scopeAt i).owner.toNat := by
  have hk : job.scopeIds lineage = stack.owners.map Int.toNat := by
    rw [h.owners, List.map_map]
    exact (List.map_id _).symm
  rw [hk, ScopeStack.owners, List.map_map]
  rfl

theorem owner_toNat_lt (h : job.Mirrors n lineage above opened tables stack) {i : Nat}
    (hi : i ∈ stack.chain) : (stack.scopeAt i).owner.toNat < n := by
  obtain ⟨s, hs, hi⟩ := h.site_at hi
  rw [hi]
  exact h.below s (List.mem_of_getElem? hs)

theorem scopeIds_lt (h : job.Mirrors n lineage above opened tables stack) {k : Nat}
    (hk : k ∈ job.scopeIds lineage) : k < n := by
  rw [h.scopeIds_eq] at hk
  obtain ⟨i, hi, rfl⟩ := List.mem_map.mp hk
  exact h.owner_toNat_lt hi

/-- A change to the scope of one site, seen as a change of tables and contexts. -/
theorem modify {above' : List Tree} {tables' : Nat → SymbolTable} {i : Nat} {s : Site}
    {g : Scope → Scope} (h : job.Mirrors n lineage above opened tables stack)
    (hs : opened[i]? = some s)
    (ho : ∀ c, (g c).owner = c.owner)
    (hself : g (job.scopeOf above tables s) = job.scopeOf above' tables' s)
    (hother : ∀ t, t.id ≠ s.id → job.scopeOf above' tables' t = job.scopeOf above tables t)
    (hfresh : ∀ k, n ≤ k → tables' k = {}) :
    job.Mirrors n lineage above' opened tables' (stack.modify i g) where
  scopes := by
    rw [ScopeStack.scopes_modify, h.scopes]
    apply List.ext_getElem?
    intro j
    rw [List.getElem?_modify, List.getElem?_map, List.getElem?_map]
    cases hj : opened[j]? with
    | none => rfl
    | some t =>
      by_cases hij : i = j
      · subst hij
        rw [hs] at hj
        cases hj
        simp [hself]
      · -- sites at different positions have different numbers
        have hne : t.id ≠ s.id := by
          obtain ⟨hi, rfl⟩ := List.getElem?_eq_some_iff.mp hs
          obtain ⟨hj', rfl⟩ := List.getElem?_eq_some_iff.mp hj
          rcases Nat.lt_or_gt_of_ne hij with hlt | hlt
          · exact Nat.ne_of_gt (List.pairwise_iff_getElem.mp h.ascending _ _ hi hj' hlt)
          · exact Nat.ne_of_lt (List.pairwise_iff_getElem.mp h.ascending _ _ hj' hi hlt)
        simp [hij, hother t hne]
  owners := by rw [ScopeStack.owners_modify stack i ho, h.owners]
  ascending := h.ascending
  below := h.below
  fresh := hfresh

/-! ### Opening and closing -/

/-- Reaching the node with number `n` opens its scope. -/
theorem push {t : Tree} (h : job.Mirrors n above above opened tables stack)
    (ho : job.opens t.label = true) (hid : t.label.id = n) :
    job.Mirrors (n + 1) (t :: above) above (opened ++ [⟨t, above⟩]) tables
      (stack.push (.ofLabel t.label)) where
  scopes := by
    -- nothing is known of the new scope yet
    have hc : job.contextOf (some n) above = [] :=
      contextOf_eq_nil job fun hm => Nat.lt_irrefl n (h.scopeIds_lt hm)
    have hnew : job.scopeOf above tables ⟨t, above⟩ =
        { Scope.ofLabel t.label with depth := stack.depth } := by
      simp [scopeOf, Site.id, Scope.ofLabel, hid, h.fresh n (Nat.le_refl n), hc, h.depth_eq]
    rw [List.map_append, List.map_singleton, hnew, ← h.scopes]
    rfl
  owners := by
    rw [ScopeStack.owners_push, h.owners, scopeIds_cons_of_opens job above ho]
    rfl
  ascending := by
    rw [List.pairwise_append]
    refine ⟨h.ascending, List.pairwise_singleton _ _, ?_⟩
    intro s hs t' ht'
    rw [List.mem_singleton.mp ht', Site.id, Site.id, hid]
    exact h.below s hs
  below := by
    intro s hs
    rcases List.mem_append.mp hs with hs | hs
    · exact Nat.lt_succ_of_lt (h.below s hs)
    · rw [List.mem_singleton.mp hs, Site.id, hid]
      exact Nat.lt_succ_self n
  fresh := fun k hk => h.fresh k (Nat.le_of_succ_le hk)

/-- A node that opens no scope leaves the open ones alone. -/
theorem pass {t : Tree} (h : job.Mirrors n lineage above opened tables stack)
    (ho : job.opens t.label = false) :
    job.Mirrors n (t :: lineage) above opened tables stack where
  scopes := h.scopes
  owners := by rw [scopeIds_cons_of_not_opens job lineage ho, h.owners]
  ascending := h.ascending
  below := h.below
  fresh := h.fresh

/-- The converse of `pass`. -/
theorem unpass {t : Tree} (h : job.Mirrors n (t :: lineage) above opened tables stack)
    (ho : job.opens t.label = false) :
    job.Mirrors n lineage above opened tables stack where
  scopes := h.scopes
  owners := by rw [h.owners, scopeIds_cons_of_not_opens job lineage ho]
  ascending := h.ascending
  below := h.below
  fresh := h.fresh

/-- The innermost scope can be closed by its node. -/
theorem drop {t : Tree} (h : job.Mirrors n (t :: lineage) above opened tables stack)
    (ho : job.opens t.label = true) :
    (∃ c, (ScopeStack.pop t.label.id t.label.type).run stack = .ok c stack.dropInnermost) ∧
      job.Mirrors n lineage above opened tables stack.dropInnermost := by
  have howners := h.owners
  rw [scopeIds_cons_of_opens job lineage ho, List.map_cons] at howners
  constructor
  · unfold ScopeStack.owners at howners
    cases hc : stack.chain with
    | nil => rw [hc] at howners; cases howners
    | cons i is =>
      rw [hc, List.map_cons, List.cons.injEq] at howners
      exact ⟨stack.scopeAt i, by simp [ScopeStack.run_pop, hc, howners.1]⟩
  · exact
      { scopes := h.scopes
        owners := by rw [ScopeStack.owners_dropInnermost, howners, List.tail_cons]
        ascending := h.ascending
        below := h.below
        fresh := h.fresh }

/-! ### Recording -/

/-- The table of an open scope is the one filed under its number. -/
theorem table_at (h : job.Mirrors n lineage above opened tables stack) {i : Nat}
    (hi : i ∈ stack.chain) :
    (stack.scopeAt i).table = tables (stack.scopeAt i).owner.toNat := by
  obtain ⟨s, -, hs⟩ := h.site_at hi
  rw [hs]
  rfl

/-- The scope that takes a mention, by position and by number. -/
theorem target?_eq (h : job.Mirrors n lineage above opened tables stack) {i : Nat} {is : List Nat}
    (hmem : ∀ j ∈ i :: is, j ∈ stack.chain) {m : Mention}
    (hm : m.scopes = (i :: is).map fun j => (stack.scopeAt j).owner.toNat) :
    m.target? tables = some (stack.scopeAt (stack.choose m.path m.declaring i is)).owner.toNat := by
  have hfind : m.scopes.find? (fun k => (tables k).contains m.path) =
      ((i :: is).find? fun j => (stack.scopeAt j).table.contains m.path).map
        fun j => (stack.scopeAt j).owner.toNat := by
    rw [hm, List.find?_map]
    congr 1
    apply List.find?_congr
    intro j hj
    rw [Function.comp_apply, h.table_at (hmem j hj)]
  unfold Mention.target? ScopeStack.choose
  rw [hfind, hm]
  cases m.declaring with
  | true => rfl
  | false => cases (i :: is).find? fun j => (stack.scopeAt j).table.contains m.path <;> rfl

/-- A mention is recorded where it is to be placed. -/
theorem record {p : Pass} {skip k : Nat} {ks : List Nat}
    (h : job.Mirrors n lineage above opened tables p.stack)
    (hids : (job.scopeIds lineage).drop skip = k :: ks) (name : String) (span : Span)
    (declaring : Bool) :
    let m : Mention :=
      ⟨k :: ks, SymbolPath.join (job.contextOf (some k) above) name, span, declaring⟩
    ∃ stack, p.record job name span declaring skip = .ok { p with stack } ∧
      job.Mirrors n lineage above opened (m.place tables) stack := by
  intro m
  rw [h.scopeIds_eq, ← List.map_drop] at hids
  obtain ⟨i, is, hd, hi, his⟩ := List.map_eq_cons_iff.mp hids
  have hchain : ∀ j ∈ i :: is, j ∈ p.stack.chain := fun j hj => List.mem_of_mem_drop (hd ▸ hj)
  -- the context is that of the innermost scope that is not skipped
  have hctx : (p.stack.scopeAt i).context = job.contextOf (some k) above := by
    obtain ⟨s, -, hs⟩ := h.site_at (hchain i List.mem_cons_self)
    rw [hs] at hi ⊢
    rw [← hi]
    rfl
  have hrec := @Pass.record_of_drop_cons job p skip i is hd name span declaring
  simp only [hctx] at hrec
  -- the position that is written belongs to the scope that takes the mention
  obtain ⟨u, hu, huj⟩ := h.site_at (hchain _ (p.stack.choose_mem m.path declaring i is))
  have htarget : m.target? tables = some u.id := by
    have hks : m.scopes = (i :: is).map fun j => (p.stack.scopeAt j).owner.toNat := by
      rw [List.map_cons, hi, his]
    rw [h.target?_eq hchain hks, huj]
    rfl
  refine ⟨_, hrec, h.modify hu (fun _ => rfl) ?_ ?_ ?_⟩
  · simp [scopeOf, Scope.add, Mention.place, htarget, m]
  · intro t ht
    simp [scopeOf, Mention.place, htarget, ht.symm]
  · intro k' hk'
    have hne : u.id ≠ k' :=
      Nat.ne_of_lt (Nat.lt_of_lt_of_le (h.below u (List.mem_of_getElem? hu)) hk')
    simp [Mention.place, htarget, hne, h.fresh k' hk']

/-! ### Contexts -/

/-- The innermost open scope is that of the innermost scope node. -/
theorem innermost_site (h : job.Mirrors n lineage above opened tables stack) {i : Nat}
    {is : List Nat} (hc : stack.chain = i :: is) :
    ∃ s, opened[i]? = some s ∧ stack.scopeAt i = job.scopeOf above tables s ∧
      (job.scopeIds lineage).head? = some s.id := by
  obtain ⟨s, hs, hsi⟩ := h.site_at (hc ▸ List.mem_cons_self : i ∈ stack.chain)
  refine ⟨s, hs, hsi, ?_⟩
  rw [h.scopeIds_eq, hc, List.map_cons, List.head?_cons, hsi]
  rfl

/-- An object literal with a name adds it to the context of the innermost scope. -/
theorem nest {t : Tree} {ts : List Tree} {name : String} {i : Nat} {is : List Nat}
    (h : job.Mirrors n (t :: ts) ts opened tables stack) (hc : stack.chain = i :: is)
    (hname : job.literalName? ⟨t, ts⟩ = some name) :
    job.Mirrors n (t :: ts) (t :: ts) opened tables
      (stack.modify i fun c => { c with context := c.context ++ [name] }) := by
  obtain ⟨s, hs, -, hhead⟩ := h.innermost_site hc
  refine h.modify hs (fun _ => rfl) ?_ (fun u hu => scopeOf_cons_of_ne job tables hhead hu) h.fresh
  simp [scopeOf, contextOf_cons_of_head job hname hhead]

/-- Leaving an object literal with a name, the context of the innermost scope ends in
that name, and without it the context is as before. -/
theorem unnest {t : Tree} {ts : List Tree} {name : String} {i : Nat} {is : List Nat}
    (h : job.Mirrors n (t :: ts) (t :: ts) opened tables stack) (hc : stack.chain = i :: is)
    (hname : job.literalName? ⟨t, ts⟩ = some name) :
    (stack.scopeAt i).context.isEmpty = false ∧
      job.Mirrors n (t :: ts) ts opened tables
        (stack.modify i fun c => { c with context := c.context.dropLast }) := by
  obtain ⟨s, hs, hsi, hhead⟩ := h.innermost_site hc
  have hctx := contextOf_cons_of_head job hname hhead
  constructor
  · simp [hsi, scopeOf, hctx]
  · refine h.modify hs (fun _ => rfl) ?_
      (fun u hu => (scopeOf_cons_of_ne job tables hhead hu).symm) h.fresh
    simp [scopeOf, hctx]

end Mirrors
end Job
end ScopeIndex
