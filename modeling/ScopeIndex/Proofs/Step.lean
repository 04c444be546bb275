import Mathlib
import ScopeIndex.Proofs.Walk

/-!
# What one visit can do

Whatever decides on scopes, a visit can change the stack in a few ways only.  Entering a
node may open its scope, and then edits at most one scope: it adds an occurrence to its
table or changes its context.  Leaving a node may change the context of one scope, and
may then close the innermost scope, provided that the node has opened it.

## Main definitions

* `ScopeStack.Edit` — a change to at most one scope, which keeps its node and its place.
* `ScopeStack.owners` — the nodes of the open scopes.
* `ScopeStack.choose` — the scope that takes an occurrence.

## Main results

* `Pass.record_of_drop_cons` — where an occurrence is recorded.
* `Pass.enter_cases`, `Pass.leave_cases` — what a visit does to the stack.
* `Pass.across_induction` — what every visit preserves holds after a pass.
-/

namespace ScopeIndex

/-- A sequence of two computations succeeds only if both do. -/
theorem exists_of_bind_eq_ok {ε α β : Type} {x : Except ε α} {f : α → Except ε β} {b : β}
    (h : x >>= f = .ok b) : ∃ a, x = .ok a ∧ f a = .ok b := by
  cases x with
  | error e => cases h
  | ok a => exact ⟨a, rfl, h⟩

namespace ScopeStack

/-- A change to at most one scope: one more occurrence in its table, or another context.
-/
inductive Edit : ScopeStack → ScopeStack → Prop
  /-- Nothing changes. -/
  | keep (s : ScopeStack) : Edit s s
  /-- The scope at a position gets an occurrence. -/
  | add (s : ScopeStack) (i : Nat) (path : String) (span : Span) :
      Edit s (s.modify i fun c => c.add path span)
  /-- The scope at a position gets another context. -/
  | context (s : ScopeStack) (i : Nat) (g : List String → List String) :
      Edit s (s.modify i fun c => { c with context := g c.context })

/-- The nodes that opened the open scopes, innermost first. -/
def owners (s : ScopeStack) : List Int := s.chain.map fun i => (s.scopeAt i).owner

theorem length_owners (s : ScopeStack) : s.owners.length = s.depth := by
  simp [owners, depth]

theorem scopeAt_modify (s : ScopeStack) (i j : Nat) (f : Scope → Scope) (hj : j < s.scopes.length) :
    (s.modify i f).scopeAt j = if i = j then f (s.scopeAt j) else s.scopeAt j := by
  simp only [scopeAt, scopes_modify, List.getElem?_modify, List.getElem?_eq_getElem hj]
  split <;> simp

theorem scopeAt_push (s : ScopeStack) (c : Scope) {j : Nat} (hj : j < s.scopes.length) :
    (s.push c).scopeAt j = s.scopeAt j := by
  simp only [scopeAt, push, List.getElem?_append_left hj]

theorem scopeAt_push_self (s : ScopeStack) (c : Scope) :
    (s.push c).scopeAt s.scopes.length = { c with depth := s.depth } := by
  simp [scopeAt, push]

/-- Opening a scope puts its node in front. -/
@[simp] theorem owners_push (s : ScopeStack) (c : Scope) :
    (s.push c).owners = c.owner :: s.owners := by
  simp only [owners, chain_push, List.map_cons, scopeAt_push_self, List.cons.injEq, true_and]
  apply List.map_congr_left
  intro i hi
  rw [scopeAt_push s c (s.bounded i hi)]

/-- A change that keeps the node of every scope keeps the nodes of the open ones. -/
theorem owners_modify (s : ScopeStack) (i : Nat) {f : Scope → Scope}
    (hf : ∀ c, (f c).owner = c.owner) :
    (s.modify i f).owners = s.owners := by
  apply List.map_congr_left
  intro j hj
  rw [scopeAt_modify s i j f (s.bounded j hj)]
  split
  · exact hf _
  · rfl

@[simp] theorem owners_dropInnermost (s : ScopeStack) : s.dropInnermost.owners = s.owners.tail := by
  simp only [owners, chain_dropInnermost, List.map_tail]
  rfl

theorem Edit.owners_eq {s s' : ScopeStack} (h : Edit s s') : s'.owners = s.owners := by
  cases h with
  | keep => rfl
  | add i path span => exact owners_modify s i fun _ => rfl
  | context i g => exact owners_modify s i fun _ => rfl

/-- A scope is closed only by the node that opened it, and only while it is the
innermost. -/
theorem pop_eq_ok {s s' : ScopeStack} {id : Int} {type : String} {c : Scope}
    (h : (pop id type).run s = .ok c s') : s.owners.head? = some id ∧ s' = s.dropInnermost := by
  rw [run_pop] at h
  split at h
  · cases h
  · next i is hc =>
    split at h
    · next ho =>
      cases h
      simp [owners, hc, ho]
    · cases h

/-- An occurrence is added to the scope that it goes to. -/
theorem record_eq_ok {s s' : ScopeStack} {path : String} {span : Span} {declaring : Bool}
    {skip : Int} {o : Occurrence} (h : (record path span declaring skip).run s = .ok o s') :
    ∃ k, s.target path declaring skip = .ok k ∧ o = (s.scopeAt k).table.occurrence path span ∧
      s' = s.modify k (·.add path span) := by
  rw [run_record] at h
  split at h
  · cases h
  · next k hk =>
    cases h
    exact ⟨k, hk, rfl, rfl⟩

/-- Skipping the `skip` innermost scopes, the search for a path goes through the rest of
the open ones, from the inside out. -/
theorem find?_eq (s : ScopeStack) (path : String) {skip : Nat} (h : skip ≤ s.depth) :
    s.find? path skip = (s.chain.drop skip).find? fun i => (s.scopeAt i).table.contains path := by
  have hb : Slice.bound s.chain.reverse.length (s.depth - skip) = s.depth - skip := by
    rw [Slice.bound_of_le (by omega) (by simp [depth])]
    omega
  have hc : s.chain.length - (s.depth - skip) = skip := by
    unfold depth at h ⊢
    omega
  rw [find?, Slice.front, hb, List.take_reverse, List.reverse_reverse, hc]

theorem enclosing_of_drop_nil {s : ScopeStack} {skip : Nat} (h : s.chain.drop skip = []) :
    s.enclosing skip = .error (.outOfReach skip) := by
  have hn : s.chain[skip]? = none := by
    rw [List.getElem?_eq_none_iff]
    exact List.drop_eq_nil_iff.mp h
  simp [enclosing, hn]

theorem enclosing_of_drop_cons {s : ScopeStack} {skip i : Nat} {is : List Nat}
    (h : s.chain.drop skip = i :: is) : s.enclosing skip = .ok i := by
  have hs : s.chain[skip]? = some i := by
    rw [← List.head?_drop, h, List.head?_cons]
  simp [enclosing, hs]

/-- Of the scopes `i :: is`, innermost first, the one that takes an occurrence: the
first, or the first that knows the path if there is one and the occurrence does not
declare. -/
def choose (s : ScopeStack) (path : String) (declaring : Bool) (i : Nat) (is : List Nat) : Nat :=
  (if declaring then none else (i :: is).find? fun j => (s.scopeAt j).table.contains path).getD i

theorem choose_mem (s : ScopeStack) (path : String) (declaring : Bool) (i : Nat) (is : List Nat) :
    s.choose path declaring i is ∈ i :: is := by
  unfold choose
  cases declaring with
  | true => exact List.mem_cons_self
  | false =>
    cases hf : (i :: is).find? fun j => (s.scopeAt j).table.contains path with
    | none => exact List.mem_cons_self
    | some j => exact List.mem_of_find?_eq_some hf

/-- An occurrence goes to one of the scopes that are not skipped. -/
theorem target_of_drop_cons {s : ScopeStack} {skip i : Nat} {is : List Nat}
    (h : s.chain.drop skip = i :: is) (path : String) (declaring : Bool) :
    s.target path declaring skip = .ok (s.choose path declaring i is) := by
  have hle : skip ≤ s.depth := by
    by_contra hlt
    rw [List.drop_eq_nil_of_le (by unfold depth at hlt; omega)] at h
    cases h
  rw [target, choose, find?_eq s path hle, h]
  cases declaring with
  | true => simpa using enclosing_of_drop_cons h
  | false =>
    cases hf : (i :: is).find? fun j => (s.scopeAt j).table.contains path with
    | none => simpa [hf] using enclosing_of_drop_cons h
    | some j => simp

end ScopeStack

/-! ### Visits -/

namespace Pass

open ScopeStack

variable {job : Job} {p p' : Pass}

theorem checkRun_eq_ok {α : Type} {x : StackM α} {a : α} {stack : ScopeStack}
    (h : p.checkRun job x = .ok (a, stack)) : x.run p.stack = .ok a stack := by
  unfold checkRun at h
  split at h
  · next hrun =>
    cases h
    exact hrun
  · cases h

/-- Out of reach of the open scopes nothing is recorded. -/
theorem record_of_drop_nil {skip : Nat} (h : p.stack.chain.drop skip = []) (name : String)
    (span : Span) (declaring : Bool) :
    p.record job name span declaring skip =
      p.fail (.ofCause job.path (.scope (.outOfReach skip))) := by
  unfold record
  rw [enclosing_of_drop_nil h]
  rfl

/-- An occurrence is nested in the context of the innermost scope that is not skipped,
whichever scope takes it. -/
theorem record_of_drop_cons {skip i : Nat} {is : List Nat} (h : p.stack.chain.drop skip = i :: is)
    (name : String) (span : Span) (declaring : Bool) :
    let path := SymbolPath.join (p.stack.scopeAt i).context name
    let j := p.stack.choose path declaring i is
    p.record job name span declaring skip =
      .ok { p with stack := p.stack.modify j fun c => c.add path span } := by
  intro path j
  unfold record
  rw [enclosing_of_drop_cons h]
  simp only [check, checkRun, bind, Except.bind, ScopeStack.run_record, target_of_drop_cons h]
  rfl

theorem record_cases {name : String} {span : Span} {declaring : Bool} {skip : Nat}
    (h : p.record job name span declaring skip = .ok p') : Edit p.stack p'.stack := by
  unfold record at h
  obtain ⟨i, -, h⟩ := exists_of_bind_eq_ok h
  obtain ⟨⟨o, stack⟩, hr, h⟩ := exists_of_bind_eq_ok h
  obtain ⟨j, -, -, rfl⟩ := ScopeStack.record_eq_ok (checkRun_eq_ok hr)
  cases h
  exact .add p.stack j _ span

theorem enterObjectLiteral_cases (h : p.enterObjectLiteral job = .ok p') :
    Edit p.stack p'.stack := by
  unfold enterObjectLiteral at h
  split at h
  · cases h
    exact .keep _
  · next n _ =>
    obtain ⟨i, -, h⟩ := exists_of_bind_eq_ok h
    cases h
    exact .context p.stack i fun c => c ++ [n.path]

theorem enterMemberAccess_cases {node : Tree} (h : p.enterMemberAccess job node = .ok p') :
    Edit p.stack p'.stack := by
  unfold enterMemberAccess at h
  simp only at h
  split at h
  · split at h
    · have he := record_cases h
      exact he
    · cases h
      exact .keep _
  · cases h
    exact .keep _

theorem enterMethod_cases {node : Tree} (h : p.enterMethod job node = .ok p') :
    Edit p.stack p'.stack := by
  unfold enterMethod at h
  split at h
  · split at h
    · cases h
      exact .keep _
    · obtain ⟨i, -, h⟩ := exists_of_bind_eq_ok h
      have he := record_cases h
      exact he
  · cases h
    exact .keep _

theorem enterIdentifier_cases {node : Tree} (h : p.enterIdentifier job node = .ok p') :
    Edit p.stack p'.stack := by
  unfold enterIdentifier at h
  simp only at h
  split at h
  · exact record_cases h
  · split at h
    · cases h
      exact .keep _
    · exact record_cases h

theorem handle_cases {node : Tree} (h : p.handle job node = .ok p') : Edit p.stack p'.stack := by
  unfold handle at h
  split at h
  · exact enterIdentifier_cases h
  · exact enterMemberAccess_cases h
  · exact enterObjectLiteral_cases h
  · exact enterMethod_cases h
  · cases h
    exact .keep _

/-- Entering a named node opens its scope, if it has one, and then edits at most one
scope. -/
theorem enter_cases {node : Tree} (h : p.enter job node = .ok p') :
    (node.label.named = false ∧ p' = p) ∨
      (node.label.named = true ∧ job.opens node.label = true ∧
        Edit (p.stack.push (.ofLabel node.label)) p'.stack) ∨
      (node.label.named = true ∧ job.opens node.label = false ∧ Edit p.stack p'.stack) := by
  unfold enter at h
  simp only at h
  split at h
  · next hn =>
    refine .inr ?_
    cases ho : job.opens node.label with
    | true =>
      rw [ho, if_pos rfl] at h
      have he := handle_cases h
      exact .inl ⟨hn, rfl, he⟩
    | false =>
      rw [ho, if_neg Bool.false_ne_true] at h
      have he := handle_cases h
      exact .inr ⟨hn, rfl, he⟩
  · next hn =>
    cases h
    exact .inl ⟨by simpa using hn, rfl⟩

theorem dropContext_cases (h : p.dropContext job = .ok p') : Edit p.stack p'.stack := by
  unfold dropContext at h
  obtain ⟨i, -, h⟩ := exists_of_bind_eq_ok h
  split at h
  · cases h
  · cases h
    exact .context p.stack i List.dropLast

theorem closeScope_cases {l : Label} (h : p.closeScope job l = .ok p') :
    p.stack.owners.head? = some (l.id : Int) ∧ p'.stack = p.stack.dropInnermost := by
  unfold closeScope at h
  obtain ⟨⟨c, stack⟩, hc, h⟩ := exists_of_bind_eq_ok h
  cases h
  exact pop_eq_ok (checkRun_eq_ok hc)

/-- Leaving a named node takes its name off a context, if it has added one, and then
closes its scope, if it closes one. -/
theorem leave_of_cons {node : Tree} {f : Frame} {fs : List Frame} (hn : node.label.named = true)
    (ha : p.ancestry = ⟨f :: fs⟩) :
    p.leave job node =
      (if f.pushed then dropContext job { p with ancestry := ⟨fs⟩ }
        else .ok { p with ancestry := ⟨fs⟩ }) >>=
        fun q => if job.closes node.label then q.closeScope job node.label else .ok q := by
  simp only [leave, hn, if_true, ha, Ancestry.pop]
  cases f.pushed <;> rfl

/-- Leaving a named node edits at most one scope, and then closes the scope of the node,
which must be the innermost, if the node closes one. -/
theorem leave_cases {node : Tree} (h : p.leave job node = .ok p') :
    (node.label.named = false ∧ p' = p) ∨
      (node.label.named = true ∧ job.closes node.label = false ∧ Edit p.stack p'.stack) ∨
      (node.label.named = true ∧ job.closes node.label = true ∧
        ∃ s, Edit p.stack s ∧ s.owners.head? = some (node.label.id : Int) ∧
          p'.stack = s.dropInnermost) := by
  cases hn : node.label.named with
  | false =>
    simp only [leave, hn, Bool.false_eq_true, if_false] at h
    cases h
    exact .inl ⟨rfl, rfl⟩
  | true =>
    refine .inr ?_
    cases ha : p.ancestry.frames with
    | nil =>
      simp only [leave, hn, if_true, Ancestry.pop, ha] at h
      cases h
    | cons f fs =>
      rw [leave_of_cons hn (congrArg Ancestry.mk ha)] at h
      obtain ⟨q, hq, h⟩ := exists_of_bind_eq_ok h
      -- the context first, if the frame that was taken off says so
      have he : Edit p.stack q.stack := by
        split at hq
        · have he := dropContext_cases hq
          exact he
        · cases hq
          exact .keep _
      cases hc : job.closes node.label with
      | true =>
        rw [hc, if_pos rfl] at h
        exact .inr ⟨rfl, rfl, q.stack, he, closeScope_cases h⟩
      | false =>
        rw [hc, if_neg Bool.false_ne_true] at h
        cases h
        exact .inl ⟨rfl, rfl, he⟩

/-- What opening a scope, editing one and closing one preserve holds after a pass. -/
theorem across_induction {P : ScopeStack → Prop} (hpush : ∀ s l, P s → P (s.push (.ofLabel l)))
    (hedit : ∀ s s', Edit s s' → P s → P s') (hdrop : ∀ s, P s → P s.dropInnermost) :
    ∀ (f : Forest) (p p' : Pass), across job f p = .ok p' → P p.stack → P p'.stack := by
  intro f
  induction f with
  | nil => intro p p' h hp; cases h; exact hp
  | cons l kids rest ihk ihr =>
    intro p p' h hp
    rw [across_cons] at h
    obtain ⟨p₁, h₁, h⟩ := exists_of_bind_eq_ok h
    obtain ⟨p₂, h₂, h⟩ := exists_of_bind_eq_ok h
    obtain ⟨p₃, h₃, h⟩ := exists_of_bind_eq_ok h
    have hp₁ : P p₁.stack := by
      rcases enter_cases h₁ with ⟨-, rfl⟩ | ⟨-, -, he⟩ | ⟨-, -, he⟩
      · exact hp
      · exact hedit _ _ he (hpush _ _ hp)
      · exact hedit _ _ he hp
    have hp₂ : P p₂.stack := ihk p₁ p₂ h₂ hp₁
    have hp₃ : P p₃.stack := by
      rcases leave_cases h₃ with ⟨-, rfl⟩ | ⟨-, -, he⟩ | ⟨-, -, s, he, -, hs⟩
      · exact hp₂
      · exact hedit _ _ he hp₂
      · rw [hs]
        exact hdrop s (hedit _ _ he hp₂)
    exact ihr p₃ p' h hp₃

end Pass
end ScopeIndex
