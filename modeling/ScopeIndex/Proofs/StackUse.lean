import Mathlib
import ScopeIndex.Proofs.Insertion

/-!
# A stack in use

Calls on a stack of scopes may come in any order and with any arguments, and some of them
fail.  A call that succeeds opens a scope, closes the innermost one, or adds an occurrence
to an open one, and a call that fails does nothing.  What holds after every history of calls
follows from that: open scopes are as deep as their positions say, a scope is closed by the
node that it was opened with, and a scope that was closed stays as it was then.

## Main definitions

* `StackCall`, `StackReply` — a call on a stack, and what it gives back.
* `ScopeStack.serve`, `ScopeStack.afterCalls` — a stack after one call, and after a history
  of calls.
* `ScopeStack.Move` — what a call can do.
* `ScopeStack.Preserves` — closed scopes stay closed, and stay as they are.

## Main results

* `ScopeStack.move_serve` — a call makes a move.
* `ScopeStack.afterCalls_induction` — what moves keep holds after every history.
* `ScopeStack.afterCalls_disciplined` — **a stack after any history of calls.**
-/

namespace ScopeIndex

/-- A call on a stack of scopes. -/
inductive StackCall where
  /-- Open a new scope. -/
  | push (owner : Int) (type : String) (span : Span)
  /-- Close the innermost scope. -/
  | pop (id : Int) (type : String)
  /-- Record an occurrence. -/
  | record (path : String) (span : Span) (declaring : Bool) (skip : Int)
  /-- Ask for the innermost scope that knows a path. -/
  | find (path : String) (skip : Int)
  /-- Ask for the scope some levels out. -/
  | enclosing (skip : Int)
  /-- Ask for the innermost scope. -/
  | innermost
  deriving DecidableEq, Repr

/-- What a call gives back if it succeeds. -/
inductive StackReply where
  /-- The scope is open. -/
  | opened
  /-- The scope that was closed. -/
  | closed (scope : Scope)
  /-- The occurrence that was recorded. -/
  | recorded (occurrence : Occurrence)
  /-- The place of a scope, if there is one. -/
  | found (place : Option Nat)
  /-- The place of a scope. -/
  | reached (place : Nat)
  deriving DecidableEq, Repr

/-- The node that a call opens a scope with. -/
def StackCall.owner? : StackCall → Option Int
  | push owner _ _ => some owner
  | _ => none

namespace ScopeStack

/-- What something that is done with a stack gives back, and the stack that it leaves behind,
whether or not it fails. -/
def answer {α : Type} (reply : α → StackReply) :
    EStateM.Result ScopeFault ScopeStack α → Except ScopeFault StackReply × ScopeStack
  | .ok a s => (.ok (reply a), s)
  | .error fault s => (.error fault, s)

/-- A stack and what it gives back after a call. -/
def serve (s : ScopeStack) : StackCall → Except ScopeFault StackReply × ScopeStack
  | .push owner type span => (.ok .opened, s.push { owner, type, span })
  | .pop id type => answer .closed ((pop id type).run s)
  | .record path span declaring skip => answer .recorded ((record path span declaring skip).run s)
  | .find path skip => (.ok (.found (s.find? path skip)), s)
  | .enclosing skip => ((s.enclosing skip).map .reached, s)
  | .innermost => (s.innermost.map .reached, s)

/-- The stack after a history of calls, whether they succeeded or not. -/
def afterCalls (calls : List StackCall) : ScopeStack :=
  calls.foldl (fun s call => (s.serve call).2) .empty

theorem afterCalls_concat (calls : List StackCall) (call : StackCall) :
    afterCalls (calls ++ [call]) = ((afterCalls calls).serve call).2 := by
  rw [afterCalls, List.foldl_append]
  rfl

variable {s s' : ScopeStack}

/-! ### What one call can do -/

/-- What a call can do to a stack. -/
inductive Move : ScopeStack → ScopeStack → Prop
  /-- Nothing changes. -/
  | keep (s : ScopeStack) : Move s s
  /-- A new scope is opened. -/
  | push (s : ScopeStack) (owner : Int) (type : String) (span : Span) :
      Move s (s.push { owner, type, span })
  /-- The innermost scope is closed. -/
  | drop (s : ScopeStack) : Move s s.dropInnermost
  /-- An open scope gets an occurrence. -/
  | add (s : ScopeStack) {k : Nat} (hk : k ∈ s.chain) (path : String) (span : Span) :
      Move s (s.modify k (·.add path span))

/-- A scope that is found is open, whatever part of the stack is searched. -/
theorem mem_chain_of_find? {path : String} {skip : Int} {k : Nat}
    (h : s.find? path skip = some k) : k ∈ s.chain := by
  have hmem := List.mem_reverse.mp (List.mem_of_find?_eq_some h)
  exact List.mem_reverse.mp (List.mem_of_mem_take hmem)

theorem mem_chain_of_enclosing {skip : Int} {k : Nat} (h : s.enclosing skip = .ok k) :
    k ∈ s.chain := by
  unfold enclosing at h
  split at h
  · cases h
  · split at h
    · next hk =>
      cases h
      exact List.mem_of_getElem? hk
    · cases h

/-- **An occurrence goes to an open scope**, whatever is skipped. -/
theorem mem_chain_of_target {path : String} {declaring : Bool} {skip : Int} {k : Nat}
    (h : s.target path declaring skip = .ok k) : k ∈ s.chain := by
  unfold target at h
  split at h
  · next hfind =>
    cases h
    split at hfind
    · cases hfind
    · exact mem_chain_of_find? hfind
  · exact mem_chain_of_enclosing h

/-- A scope that cannot be closed is looked at and left alone. -/
theorem pop_eq_error {id : Int} {type : String} {fault : ScopeFault}
    (h : (pop id type).run s = .error fault s') : s' = s := by
  rw [run_pop] at h
  split at h
  · cases h
    rfl
  · split at h
    · cases h
    · cases h
      rfl

/-- An occurrence that has no scope to go to leaves all scopes alone. -/
theorem record_eq_error {path : String} {span : Span} {declaring : Bool} {skip : Int}
    {fault : ScopeFault} (h : (record path span declaring skip).run s = .error fault s') :
    s' = s := by
  rw [run_record] at h
  split at h
  · cases h
    rfl
  · cases h

/-- **A call makes a move.** -/
theorem move_serve (s : ScopeStack) (call : StackCall) : Move s (s.serve call).2 := by
  cases call with
  | push owner type span => exact .push s owner type span
  | pop id type =>
    rw [serve]
    cases hpop : (pop id type).run s with
    | ok c s' =>
      rw [(pop_eq_ok hpop).2]
      exact .drop s
    | error fault s' =>
      rw [pop_eq_error hpop]
      exact .keep s
  | record path span declaring skip =>
    rw [serve]
    cases hrecord : (record path span declaring skip).run s with
    | ok o s' =>
      obtain ⟨k, hk, -, rfl⟩ := record_eq_ok hrecord
      exact .add s (mem_chain_of_target hk) path span
    | error fault s' =>
      rw [record_eq_error hrecord]
      exact .keep s
  | find path skip => exact .keep s
  | enclosing skip => exact .keep s
  | innermost => exact .keep s

/-- A call that fails does nothing. -/
theorem serve_of_error {call : StackCall} {fault : ScopeFault}
    (h : (s.serve call).1 = .error fault) : (s.serve call).2 = s := by
  cases call with
  | push owner type span => cases h
  | pop id type =>
    rw [serve] at h ⊢
    cases hpop : (pop id type).run s with
    | ok c s' =>
      rw [hpop] at h
      cases h
    | error fault' s' => exact pop_eq_error hpop
  | record path span declaring skip =>
    rw [serve] at h ⊢
    cases hrecord : (record path span declaring skip).run s with
    | ok o s' =>
      rw [hrecord] at h
      cases h
    | error fault' s' => exact record_eq_error hrecord
  | find path skip => rfl
  | enclosing skip => rfl
  | innermost => rfl

/-- What holds of a stack on which nothing is open yet, and is kept by moves, holds after
every history of calls. -/
theorem afterCalls_induction {P : ScopeStack → Prop} (hempty : P .empty)
    (hmove : ∀ s s', Move s s' → P s → P s') (calls : List StackCall) : P (afterCalls calls) := by
  induction calls using List.reverseRecOn with
  | nil => exact hempty
  | append_singleton calls call ih =>
    rw [afterCalls_concat]
    exact hmove _ _ (move_serve _ call) ih

/-! ### Depths -/

/-- The depth of an open scope is its position, counted from the outermost. -/
def Layered (s : ScopeStack) : Prop :=
  ∀ i k, s.chain.reverse[i]? = some k → (s.scopeAt k).depth = i

theorem Layered.move (hmove : Move s s') (h : s.Layered) : s'.Layered := by
  intro i k hk
  cases hmove with
  | keep => exact h i k hk
  | push owner type span =>
    rw [chain_push, List.reverse_cons] at hk
    rcases Nat.lt_trichotomy i s.chain.reverse.length with hlt | rfl | hgt
    · rw [List.getElem?_append_left hlt] at hk
      have hopen : k ∈ s.chain := List.mem_reverse.mp (List.mem_of_getElem? hk)
      rw [scopeAt_push s _ (s.bounded k hopen)]
      exact h i k hk
    · -- the new scope is the last one
      rw [List.getElem?_concat_length] at hk
      obtain rfl : s.scopes.length = k := Option.some.inj hk
      rw [scopeAt_push_self, List.length_reverse]
      rfl
    · rw [List.getElem?_eq_none (by simpa using hgt)] at hk
      cases hk
  | drop =>
    rw [chain_dropInnermost, ← List.dropLast_reverse, List.getElem?_dropLast] at hk
    split at hk
    · exact h i k hk
    · cases hk
  | @add j _ path span =>
    have hopen : k ∈ s.chain := List.mem_reverse.mp (List.mem_of_getElem? hk)
    rw [scopeAt_modify s j k _ (s.bounded k hopen)]
    split
    · exact h i k hk
    · exact h i k hk

theorem Layered.depth_eq (h : s.Layered) {i : Nat} {c : Scope} (hc : s.openScopes[i]? = some c) :
    c.depth = i := by
  rw [openScopes, List.getElem?_map] at hc
  obtain ⟨k, hk, rfl⟩ := Option.map_eq_some_iff.mp hc
  exact h i k hk

/-- Opening a scope puts it behind the open ones. -/
theorem openScopes_push (s : ScopeStack) (c : Scope) :
    (s.push c).openScopes = s.openScopes ++ [{ c with depth := s.depth }] := by
  have hsame : s.chain.reverse.map (s.push c).scopeAt = s.chain.reverse.map s.scopeAt := by
    refine List.map_congr_left fun k hk => ?_
    rw [scopeAt_push s c (s.bounded k (List.mem_reverse.mp hk))]
  rw [openScopes, chain_push, List.reverse_cons, List.map_append, List.map_singleton, hsame,
    scopeAt_push_self, openScopes]

/-! ### Owners -/

theorem map_owner_modify (s : ScopeStack) (i : Nat) {f : Scope → Scope}
    (hf : ∀ c, (f c).owner = c.owner) :
    (s.modify i f).scopes.map (·.owner) = s.scopes.map (·.owner) := by
  apply List.ext_getElem?
  intro j
  rw [scopes_modify, List.getElem?_map, List.getElem?_map, List.getElem?_modify]
  cases s.scopes[j]? with
  | none => rfl
  | some c =>
    refine congrArg some ?_
    split
    · exact hf c
    · rfl

/-- A call opens at most one scope, and leaves the nodes of the others alone. -/
theorem map_owner_serve (s : ScopeStack) (call : StackCall) :
    (s.serve call).2.scopes.map (·.owner) =
      s.scopes.map (·.owner) ++ call.owner?.toList := by
  cases call with
  | push owner type span => rw [serve, push, List.map_append]; rfl
  | pop id type =>
    refine Eq.trans ?_ (List.append_nil _).symm
    rw [serve]
    cases hpop : (pop id type).run s with
    | ok c s' => rw [answer, (pop_eq_ok hpop).2, scopes_dropInnermost]
    | error fault s' => rw [answer, pop_eq_error hpop]
  | record path span declaring skip =>
    refine Eq.trans ?_ (List.append_nil _).symm
    rw [serve]
    cases hrecord : (record path span declaring skip).run s with
    | ok o s' =>
      obtain ⟨k, -, -, rfl⟩ := record_eq_ok hrecord
      exact map_owner_modify s k fun _ => rfl
    | error fault s' => rw [answer, record_eq_error hrecord]
  | find path skip => exact (List.append_nil _).symm
  | enclosing skip => exact (List.append_nil _).symm
  | innermost => exact (List.append_nil _).symm

/-- The scopes of a stack belong to the nodes that calls have opened them with, in order. -/
theorem map_owner_afterCalls (calls : List StackCall) :
    (afterCalls calls).scopes.map (·.owner) = calls.filterMap StackCall.owner? := by
  induction calls using List.reverseRecOn with
  | nil => rfl
  | append_singleton calls call ih =>
    rw [afterCalls_concat, map_owner_serve, ih, List.filterMap_append]
    cases hcall : call.owner? <;> simp [hcall]

theorem owner_scopeAt_afterCalls {calls : List StackCall} {k : Nat}
    (hk : k < (afterCalls calls).scopes.length) :
    (calls.filterMap StackCall.owner?)[k]? = some ((afterCalls calls).scopeAt k).owner := by
  rw [← map_owner_afterCalls, List.getElem?_map, scopeAt, List.getElem?_eq_getElem hk]
  rfl

/-! ### Closing -/

/-- A scope is closed just when it is the innermost and the node is the one it belongs to. -/
theorem serve_pop_eq_ok_iff {id : Int} {type : String} {reply : StackReply} :
    (s.serve (.pop id type)).1 = .ok reply ↔
      ∃ k, s.chain.head? = some k ∧ (s.scopeAt k).owner = id ∧ reply = .closed (s.scopeAt k) := by
  rw [serve, run_pop]
  cases hchain : s.chain with
  | nil => simp [answer]
  | cons k ks =>
    simp only [List.head?_cons, Option.some.injEq, exists_eq_left']
    by_cases howner : (s.scopeAt k).owner = id
    · simp [answer, howner, eq_comm]
    · simp [answer, howner]

/-- Closing a scope takes it off the open ones and leaves all scopes as they are. -/
theorem serve_pop_of_head {id : Int} {k : Nat} (hhead : s.chain.head? = some k)
    (howner : (s.scopeAt k).owner = id) (type : String) :
    s.serve (.pop id type) = (.ok (.closed (s.scopeAt k)), s.dropInnermost) ∧
      s.openScopes = s.dropInnermost.openScopes ++ [s.scopeAt k] := by
  obtain ⟨ks, hchain⟩ := List.head?_eq_some_iff.mp hhead
  constructor
  · rw [serve, run_pop, hchain]
    simp [answer, howner]
  · have hsame : s.dropInnermost.scopeAt = s.scopeAt := rfl
    rw [openScopes, openScopes, hsame, chain_dropInnermost, hchain, List.reverse_cons,
      List.map_append, List.tail_cons]
    rfl

/-! ### Closed scopes -/

/-- Scopes stay where they are, and those that are closed stay closed and do not change. -/
structure Preserves (s s' : ScopeStack) : Prop where
  /-- No scope goes away. -/
  length_le : s.scopes.length ≤ s'.scopes.length
  /-- A closed scope is not opened again. -/
  closed : ∀ k < s.scopes.length, k ∉ s.chain → k ∉ s'.chain
  /-- A closed scope does not change. -/
  scope_eq : ∀ k < s.scopes.length, k ∉ s.chain → s'.scopes[k]? = s.scopes[k]?

theorem Preserves.refl (s : ScopeStack) : s.Preserves s :=
  ⟨le_rfl, fun _ _ h => h, fun _ _ _ => rfl⟩

theorem Preserves.trans {s₁ s₂ s₃ : ScopeStack} (h : s₁.Preserves s₂) (h' : s₂.Preserves s₃) :
    s₁.Preserves s₃ where
  length_le := h.length_le.trans h'.length_le
  closed := fun k hk hc => h'.closed k (hk.trans_le h.length_le) (h.closed k hk hc)
  scope_eq := fun k hk hc =>
    (h'.scope_eq k (hk.trans_le h.length_le) (h.closed k hk hc)).trans (h.scope_eq k hk hc)

theorem Move.preserves (h : Move s s') : s.Preserves s' := by
  cases h with
  | keep => exact .refl s
  | push owner type span =>
    refine ⟨by simp [ScopeStack.push], fun k hk hc => ?_, fun k hk _ => List.getElem?_append_left hk⟩
    rw [chain_push, List.mem_cons, not_or]
    exact ⟨hk.ne, hc⟩
  | drop => exact ⟨le_rfl, fun k _ hc hk => hc (List.mem_of_mem_tail hk), fun _ _ _ => rfl⟩
  | @add j hj path span =>
    refine ⟨by simp, fun k _ hc => hc, fun k _ hc => ?_⟩
    -- the scope that gets the occurrence is open
    have hne : j ≠ k := fun heq => hc (heq ▸ hj)
    rw [scopes_modify, List.getElem?_modify_ne _ _ hne]

theorem preserves_foldl (calls : List StackCall) : ∀ s : ScopeStack,
    s.Preserves (calls.foldl (fun s call => (s.serve call).2) s) := by
  induction calls with
  | nil => exact .refl
  | cons call calls ih =>
    intro s
    exact (move_serve s call).preserves.trans (ih _)

/-- A scope that was closed stays closed, and stays as it was then. -/
theorem closed_afterCalls {before after : List StackCall} {id : Int} {type : String} {c : Scope}
    (h : ((afterCalls before).serve (.pop id type)).1 = .ok (.closed c)) :
    ∃ k, (afterCalls before).chain.head? = some k ∧
      k ∉ (afterCalls (before ++ .pop id type :: after)).chain ∧
      (afterCalls (before ++ .pop id type :: after)).scopes[k]? = some c := by
  obtain ⟨k, hhead, howner, hreply⟩ := serve_pop_eq_ok_iff.mp h
  cases hreply
  refine ⟨k, hhead, ?_⟩
  have hrest : afterCalls (before ++ .pop id type :: after) =
      after.foldl (fun s call => (s.serve call).2) (afterCalls before).dropInnermost := by
    rw [afterCalls, List.foldl_append, List.foldl_cons, ← afterCalls,
      (serve_pop_of_head hhead howner type).1]
  rw [hrest]
  generalize afterCalls before = s at hhead
  obtain ⟨ks, hchain⟩ := List.head?_eq_some_iff.mp hhead
  have hlt : k < s.scopes.length := s.bounded k (List.mem_of_head? hhead)
  -- inner scopes come later, so the scopes around it are others
  have hclosed : k ∉ s.dropInnermost.chain := by
    have hdescending := s.descending
    rw [hchain, List.pairwise_cons] at hdescending
    rw [chain_dropInnermost, hchain, List.tail_cons]
    exact fun hk => lt_irrefl k (hdescending.1 k hk)
  have hpreserves := preserves_foldl after s.dropInnermost
  refine ⟨hpreserves.closed k hlt hclosed, (hpreserves.scope_eq k hlt hclosed).trans ?_⟩
  rw [scopes_dropInnermost, scopeAt, List.getElem?_eq_getElem hlt]
  rfl

/-! ### Histories -/

/-- **A stack after any history of calls**, successful or not.  The open scope at a position
has that depth, and a new scope goes behind the open ones.  The innermost scope, if there is
one, is closed just by the node that it was opened with, and then the others are open as
before and no scope changes.  A call that fails does nothing.  A scope that was closed is
never open again and stays as it was then. -/
theorem afterCalls_disciplined (calls : List StackCall) :
    let s := afterCalls calls
    let owners := calls.filterMap StackCall.owner?
    (∀ (i : Nat) (c : Scope), s.openScopes[i]? = some c → c.depth = i) ∧
      (∀ owner type span, (s.serve (.push owner type span)).2.openScopes =
        s.openScopes ++ [{ owner, type, span, depth := s.depth }]) ∧
      (∀ id type, (∃ reply, (s.serve (.pop id type)).1 = .ok reply) ↔
        ∃ k, s.chain.head? = some k ∧ owners[k]? = some id) ∧
      (∀ id type reply, (s.serve (.pop id type)).1 = .ok reply → ∃ c, reply = .closed c ∧
        s.openScopes = (s.serve (.pop id type)).2.openScopes ++ [c] ∧
        (s.serve (.pop id type)).2.scopes = s.scopes) ∧
      (∀ call fault, (s.serve call).1 = .error fault → (s.serve call).2 = s) ∧
      ∀ before id type after c, calls = before ++ .pop id type :: after →
        ((afterCalls before).serve (.pop id type)).1 = .ok (.closed c) →
          ∃ k, (afterCalls before).chain.head? = some k ∧ k ∉ s.chain ∧
            s.scopes[k]? = some c := by
  intro s owners
  have hlayered : s.Layered :=
    afterCalls_induction (fun i k hk => by simp [empty] at hk) (fun _ _ => Layered.move) calls
  refine ⟨fun i c hc => hlayered.depth_eq hc, fun owner type span => openScopes_push s _,
    fun id type => ?_, fun id type reply h => ?_,
    fun call fault h => serve_of_error h, ?_⟩
  · simp only [serve_pop_eq_ok_iff]
    constructor
    · rintro ⟨reply, k, hhead, rfl, -⟩
      have hlt : k < s.scopes.length := s.bounded k (List.mem_of_head? hhead)
      exact ⟨k, hhead, owner_scopeAt_afterCalls hlt⟩
    · rintro ⟨k, hhead, hid⟩
      have hlt : k < s.scopes.length := s.bounded k (List.mem_of_head? hhead)
      rw [owner_scopeAt_afterCalls hlt] at hid
      exact ⟨_, k, hhead, Option.some.inj hid, rfl⟩
  · obtain ⟨k, hhead, howner, rfl⟩ := serve_pop_eq_ok_iff.mp h
    obtain ⟨hserve, hopen⟩ := serve_pop_of_head hhead howner type
    refine ⟨_, rfl, ?_⟩
    rw [hserve]
    exact ⟨hopen, rfl⟩
  · rintro before id type after c rfl h
    exact closed_afterCalls h

end ScopeStack
end ScopeIndex
