import Mathlib
import ScopeIndex.Proofs.Discipline

/-!
# Frames and contexts along any walk

Nodes may open scopes that other nodes close, or that no node closes.  Whatever a
boundary says, the frames of a walk are those of the lineage, since entering a node puts
one frame there and leaving it takes one off.  Contexts are another matter: an object
literal adds its name to the innermost scope when it is entered, and takes a name off
whatever scope is innermost when it is left.  Here it is said what the contexts of the
open scopes are behind a row, and how a visit can fail.

## Main definitions

* `ScopeStack.contexts` — the contexts of the open scopes.
* `Site.addsName` — does an object literal add a name to a context?
* `Job.Leaks` — some node of a row opens a scope without closing it.
* `Job.Tracks` — what holds of frames and open scopes between two visits.

## Main results

* `Pass.enter_brings` — what entering a node does, and how it fails.
* `Job.across_owners_eq_iff` — a row leaves a scope open just when it leaks.
* `Job.across_contexts` — the contexts behind a row.
-/

namespace ScopeIndex

/-! ### Contexts of the open scopes -/

namespace ScopeStack

/-- The contexts of the open scopes, innermost first. -/
def contexts (s : ScopeStack) : List (List String) := s.chain.map fun i => (s.scopeAt i).context

theorem length_contexts (s : ScopeStack) : s.contexts.length = s.depth := by
  simp [contexts, depth]

@[simp] theorem contexts_push (s : ScopeStack) (l : Label) :
    (s.push (.ofLabel l)).contexts = [] :: s.contexts := by
  simp only [contexts, chain_push, List.map_cons, scopeAt_push_self, List.cons.injEq]
  refine ⟨rfl, List.map_congr_left fun i hi => ?_⟩
  rw [scopeAt_push s _ (s.bounded i hi)]

theorem contexts_modify (s : ScopeStack) (i : Nat) {f : Scope → Scope}
    (hf : ∀ c, (f c).context = c.context) : (s.modify i f).contexts = s.contexts := by
  apply List.map_congr_left
  intro j hj
  rw [scopeAt_modify s i j f (s.bounded j hj)]
  split
  · exact hf _
  · rfl

/-- The innermost context alone can be changed. -/
theorem contexts_modify_innermost {s : ScopeStack} {i : Nat} {is : List Nat}
    (hc : s.chain = i :: is) (g : List String → List String) :
    (s.modify i fun c => { c with context := g c.context }).contexts = s.contexts.modifyHead g := by
  have hdesc := s.descending
  have hbound := s.bounded
  rw [hc] at hdesc hbound
  simp only [contexts, chain_modify, hc, List.map_cons, List.modifyHead_cons, List.cons.injEq]
  refine ⟨by rw [scopeAt_modify s i i _ (hbound i List.mem_cons_self), if_pos rfl], ?_⟩
  apply List.map_congr_left
  intro j hj
  -- the scopes around the innermost one stand before it
  have hne : i ≠ j := Nat.ne_of_gt ((List.pairwise_cons.mp hdesc).1 j hj)
  rw [scopeAt_modify s i j _ (hbound j (List.mem_cons_of_mem i hj)), if_neg hne]

@[simp] theorem contexts_dropInnermost (s : ScopeStack) :
    s.dropInnermost.contexts = s.contexts.tail := by
  simp only [contexts, chain_dropInnermost, List.map_tail]
  rfl

end ScopeStack

/-! ### Names that literals add -/

/-- Does the object literal add a name to a context?  It does if it is the value of a
binding that is named by an identifier, or the value of a property. -/
def Site.addsName (s : Site) : Bool :=
  s.kind == .objectLiteral &&
    ((s.isInitial && (s.parent?.bind fun q => q.node.child? "name").any fun n =>
        n.label.kind == .identifier) ||
      s.isPart "value" .property)

/-- A node is a part of one kind of node only. -/
theorem Site.isPart_property_of_isInitial {s : Site} (h : s.isInitial = true) :
    s.isPart "value" .property = false := by
  obtain ⟨q, hq, hk⟩ := exists_parent_of_isPart h
  simp [isPart, isIn, hq, hk]

/-- Whether an object literal adds a name depends neither on the source nor on the
scopes. -/
theorem Job.isSome_literalName? (job : Job) (s : Site) :
    (job.literalName? s).isSome = s.addsName := by
  unfold literalName? Site.addsName
  by_cases hk : s.kind = .objectLiteral
  · cases hi : s.isInitial with
    | true =>
      rw [Site.isPart_property_of_isInitial hi]
      cases s.parent?.bind fun q => q.node.child? "name" with
      | none => simp [hk]
      | some n => by_cases hn : n.label.kind = .identifier <;> simp [hk, hn, Option.filter]
    | false => cases s.isPart "value" .property <;> simp [hk]
  · simp [hk]

/-! ### How a visit can fail -/

/-- Is a scope wanting where one is needed? -/
def ScopeFault.isWant : ScopeFault → Bool
  | noneOpen => true
  | outOfReach _ => true
  | _ => false

/-- The step gives a pass with `post`, or stops for want of a scope. -/
def Pass.Brings (job : Job) (post : Pass → Prop) : Except Stop Pass → Prop
  | .ok p => post p
  | .error stop =>
      ∃ fault : ScopeFault, fault.isWant = true ∧ stop.failure = .ofCause job.path (.scope fault)

namespace Pass

open ScopeStack

variable {job : Job} {p p' : Pass} {post : Pass → Prop} {s : Site}

theorem Brings.of_want {fault : ScopeFault} (h : fault.isWant = true) :
    Brings job post (p.fail (.ofCause job.path (.scope fault))) :=
  ⟨fault, h, rfl⟩

/-- Recording a name changes no context. -/
theorem record_brings (h : ∀ stack, stack.contexts = p.stack.contexts → post { p with stack })
    (name : String) (span : Span) (declaring : Bool) (skip : Nat) :
    Brings job post (p.record job name span declaring skip) := by
  cases hd : p.stack.chain.drop skip with
  | nil =>
    rw [record_of_drop_nil hd]
    exact .of_want rfl
  | cons i is =>
    rw [record_of_drop_cons hd]
    exact h _ (contexts_modify _ _ fun _ => rfl)

/-- The frame of the node being entered is in place, and nothing else has been done for
it. -/
def Enters (job : Job) (s : Site) (p : Pass) : Prop :=
  p.ancestry = ⟨s.frame :: job.frames s.above⟩

/-- What entering a node leaves behind, when the contexts were `cs` before it. -/
structure Entered (job : Job) (s : Site) (cs : List (List String)) (p : Pass) : Prop where
  /-- The frame of the node is complete. -/
  ancestry : p.ancestry = ⟨job.frames s.lineage⟩
  /-- The name of the node, if it adds one, is in the innermost context. -/
  contexts : p.stack.contexts = cs.modifyHead (· ++ (job.literalName? s).toList)
  /-- There is a context to add the name to. -/
  grounded : job.literalName? s ≠ none → cs ≠ []

theorem entered_of_none {cs : List (List String)} (hl : job.literalName? s = none)
    (ha : p.ancestry = ⟨job.frames s.lineage⟩) (hc : p.stack.contexts = cs) :
    Entered job s cs p := by
  refine ⟨ha, ?_, fun hne => absurd hl hne⟩
  rw [hc, hl]
  cases cs <;> simp

theorem entered_of_kind {cs : List (List String)} (h : Enters job s p)
    (h₁ : s.kind ≠ .memberAccess) (h₂ : s.kind ≠ .objectLiteral) (hc : p.stack.contexts = cs) :
    Entered job s cs p := by
  refine entered_of_none (Job.literalName?_of_kind_ne job h₂) ?_ hc
  rw [h, Site.lineage, Job.frames_cons, Job.frameOf_of_kind h₁ h₂]

theorem enterIdentifier_brings (h : Enters job s p) (hk : s.kind = .identifier) :
    Brings job (Entered job s p.stack.contexts) (p.enterIdentifier job s.node) := by
  have hdone : ∀ stack, stack.contexts = p.stack.contexts →
      Entered job s p.stack.contexts { p with stack } := fun stack hc =>
    entered_of_kind (p := { p with stack }) h (by simp [hk]) (by simp [hk]) hc
  unfold enterIdentifier
  simp only
  split
  · exact record_brings hdone _ _ _ _
  · split
    · exact hdone p.stack rfl
    · exact record_brings hdone _ _ _ _

theorem enterMemberAccess_brings (h : Enters job s p) (hk : s.kind = .memberAccess) :
    Brings job (Entered job s p.stack.contexts) (p.enterMemberAccess job s.node) := by
  have hl : job.literalName? s = none := Job.literalName?_of_kind_ne job (by simp [hk])
  unfold enterMemberAccess
  simp only
  generalize hq : noteGaps job _ _ = q
  have ha : q.ancestry = ⟨job.frames s.lineage⟩ := by
    rw [← hq, Site.lineage, Job.frames_cons]
    rw [Enters] at h
    simp [noteGaps, note, Ancestry.modifyTop, h, Job.frameOf, Site.frame, hk, hl]
  have hc : q.stack.contexts = p.stack.contexts := by rw [← hq]; rfl
  have hdone : ∀ stack, stack.contexts = q.stack.contexts →
      Entered job s p.stack.contexts { q with stack } := fun stack hs =>
    entered_of_none (p := { q with stack }) hl ha (hs.trans hc)
  split
  · split
    · exact record_brings hdone _ _ _ _
    · exact hdone q.stack rfl
  · exact hdone q.stack rfl

theorem enterMethod_brings (h : Enters job s p) (hk : s.kind = .method) :
    Brings job (Entered job s p.stack.contexts) (p.enterMethod job s.node) := by
  have hdone : ∀ stack, stack.contexts = p.stack.contexts →
      Entered job s p.stack.contexts { p with stack } := fun stack hc =>
    entered_of_kind (p := { p with stack }) h (by simp [hk]) (by simp [hk]) hc
  unfold enterMethod
  split
  · split
    · exact hdone p.stack rfl
    · cases hchain : p.stack.chain with
      | nil =>
        rw [innermost, hchain]
        exact .of_want rfl
      | cons i is =>
        rw [innermost, hchain]
        exact record_brings (p := p.noteGaps job _)
          (fun stack hc => entered_of_kind (p := { p.noteGaps job _ with stack }) h
            (by simp [hk]) (by simp [hk]) hc) _ _ _ _
  · exact hdone p.stack rfl

theorem enterObjectLiteral_brings (h : Enters job s p) (hk : s.kind = .objectLiteral) :
    Brings job (Entered job s p.stack.contexts) (p.enterObjectLiteral job) := by
  have hname := job.contextName?_frames (s := s) (f := s.frame) rfl hk
  unfold enterObjectLiteral
  rw [h]
  split
  · next hc =>
    rw [hc] at hname
    have hl : job.literalName? s = none := hname.symm
    refine entered_of_none hl ?_ rfl
    rw [h, Site.lineage, Job.frames_cons]
    simp [Job.frameOf, Site.frame, hk, hl]
  · next name hc =>
    rw [hc] at hname
    have hl : job.literalName? s = some name.path := hname.symm
    cases hchain : p.stack.chain with
    | nil =>
      simp only [noteGaps, note, innermost, hchain]
      exact .of_want rfl
    | cons i is =>
      simp only [noteGaps, note, innermost, hchain]
      refine ⟨?_, ?_, ?_⟩
      · rw [Enters] at h
        rw [Site.lineage, Job.frames_cons]
        simp [Ancestry.modifyTop, h, Job.frameOf, Site.frame, hk, hl]
      · rw [hl]
        exact contexts_modify_innermost hchain (· ++ [name.path])
      · intro _
        simp [contexts, hchain]

theorem handle_brings (h : Enters job s p) :
    Brings job (Entered job s p.stack.contexts) (p.handle job s.node) := by
  unfold handle
  split
  · next hk => exact enterIdentifier_brings h hk
  · next hk => exact enterMemberAccess_brings h hk
  · next hk => exact enterObjectLiteral_brings h hk
  · next hk => exact enterMethod_brings h hk
  · next _ h₂ h₃ _ => exact entered_of_kind h h₂ h₃ rfl

/-- **Entering a named node** puts its frame there, opens its scope and adds its name to
the innermost context, or stops for want of a scope. -/
theorem enter_brings {t : Tree} {above : List Tree} (hn : t.label.named = true)
    (ha : p.ancestry = ⟨job.frames above⟩) :
    Brings job (Entered job ⟨t, above⟩
      ((if job.opens t.label then [[]] else []) ++ p.stack.contexts)) (p.enter job t) := by
  unfold enter
  simp only [hn, if_true]
  cases ho : job.opens t.label with
  | true =>
    have hstep := @handle_brings job
      (openScope { p with ancestry := p.ancestry.push (Site.frame ⟨t, above⟩) } t.label) ⟨t, above⟩
      (by rw [Enters, openScope, note, Ancestry.push, ha])
    rw [openScope, note, contexts_push] at hstep
    exact hstep
  | false =>
    exact @handle_brings job { p with ancestry := p.ancestry.push (Site.frame ⟨t, above⟩) }
      ⟨t, above⟩ (by rw [Enters, Ancestry.push, ha])

theorem enter_of_anonymous {t : Tree} (hn : t.label.named = false) : p.enter job t = .ok p := by
  simp [enter, hn]

theorem leave_of_anonymous {t : Tree} (hn : t.label.named = false) : p.leave job t = .ok p := by
  simp [leave, hn]

/-- A walk over a row comes to its end in four steps. -/
theorem exists_of_across_cons {l : Label} {kids rest : Forest}
    (h : across job (.cons l kids rest) p = .ok p') :
    ∃ p₁ p₂ p₃, p.enter job ⟨l, kids⟩ = .ok p₁ ∧ across job kids p₁ = .ok p₂ ∧
      p₂.leave job ⟨l, kids⟩ = .ok p₃ ∧ across job rest p₃ = .ok p' := by
  rw [across_cons] at h
  obtain ⟨p₁, h₁, h⟩ := exists_of_bind_eq_ok h
  obtain ⟨p₂, h₂, h⟩ := exists_of_bind_eq_ok h
  obtain ⟨p₃, h₃, h⟩ := exists_of_bind_eq_ok h
  exact ⟨p₁, p₂, p₃, h₁, h₂, h₃, h⟩

/-! ### Leaving a node -/

/-- A name is taken off the innermost context, unless that is empty. -/
theorem dropContext_outcome (job : Job) (p : Pass) :
    (p.stack.contexts = [] ∧ p.dropContext job = p.fail (.ofCause job.path (.scope .noneOpen))) ∨
      (p.stack.contexts.head? = some [] ∧ p.dropContext job = p.fail (.underflow .pop)) ∨
      ∃ c cs stack, p.stack.contexts = c :: cs ∧ c ≠ [] ∧
        p.dropContext job = .ok { p with stack } ∧ stack.contexts = c.dropLast :: cs ∧
        stack.owners = p.stack.owners := by
  cases hchain : p.stack.chain with
  | nil =>
    refine .inl ⟨by simp [contexts, hchain], ?_⟩
    rw [dropContext, innermost, hchain]
    rfl
  | cons i is =>
    refine .inr ?_
    have hc : p.stack.contexts = (p.stack.scopeAt i).context :: p.stack.contexts.tail := by
      simp [contexts, hchain]
    cases he : (p.stack.scopeAt i).context.isEmpty with
    | true =>
      refine .inl ⟨by rw [hc, List.head?_cons, List.isEmpty_iff.mp he], ?_⟩
      simp only [dropContext, innermost, hchain, check, bind, Except.bind, he, if_true]
    | false =>
      refine .inr ⟨_, _, p.stack.modify i fun c => { c with context := c.context.dropLast }, hc,
        by simpa using he, ?_, ?_, owners_modify _ _ fun _ => rfl⟩
      · simp only [dropContext, innermost, hchain, check, bind, Except.bind, he]
        rfl
      · rw [contexts_modify_innermost hchain List.dropLast, hc]
        rfl

/-- The innermost scope is closed if it belongs to the node. -/
theorem closeScope_outcome (job : Job) (p : Pass) (l : Label) :
    (p.stack.owners.head? = some (l.id : Int) ∧
        p.closeScope job l = .ok { p with stack := p.stack.dropInnermost }) ∨
      (p.stack.owners.head? ≠ some (l.id : Int) ∧
        ∃ fault, p.closeScope job l = p.fail (.ofCause job.path (.scope fault))) := by
  unfold closeScope checkRun
  rw [run_pop]
  cases hchain : p.stack.chain with
  | nil => exact .inr ⟨by simp [owners, hchain], _, rfl⟩
  | cons i is =>
    have ho : p.stack.owners.head? = some (p.stack.scopeAt i).owner := by simp [owners, hchain]
    by_cases he : (p.stack.scopeAt i).owner = l.id
    · exact .inl ⟨by rw [ho, he], by simp [he, bind, Except.bind, pure, Except.pure]⟩
    · exact .inr ⟨by simpa [ho] using he, _, by simp only [he, if_false]; rfl⟩

/-- Leaving a named node takes its frame off, takes its name off the innermost context
and closes the innermost scope, each if there is one to be taken off or closed. -/
theorem leave_eq_ok {t : Tree} {above : List Tree} (hn : t.label.named = true)
    (ha : p.ancestry = ⟨job.frames (t :: above)⟩) (h : p.leave job t = .ok p') :
    ∃ q : Pass, q.ancestry = ⟨job.frames above⟩ ∧ q.stack.owners = p.stack.owners ∧
      ((job.literalName? ⟨t, above⟩ = none ∧ q.stack.contexts = p.stack.contexts) ∨
        ∃ name c cs, job.literalName? ⟨t, above⟩ = some name ∧ p.stack.contexts = c :: cs ∧
          c ≠ [] ∧ q.stack.contexts = c.dropLast :: cs) ∧
      ((job.closes t.label = false ∧ p' = q) ∨
        (job.closes t.label = true ∧ p' = { q with stack := q.stack.dropInnermost })) := by
  rw [leave_of_cons hn ha] at h
  obtain ⟨q, hq, h⟩ := exists_of_bind_eq_ok h
  have hclose : (job.closes t.label = false ∧ p' = q) ∨
      (job.closes t.label = true ∧ p' = { q with stack := q.stack.dropInnermost }) := by
    cases hc : job.closes t.label with
    | false =>
      rw [hc, if_neg Bool.false_ne_true] at h
      cases h
      exact .inl ⟨rfl, rfl⟩
    | true =>
      rw [hc, if_pos rfl] at h
      rcases closeScope_outcome job q t.label with ⟨-, hok⟩ | ⟨-, fault, hfail⟩
      · rw [hok] at h
        cases h
        exact .inr ⟨rfl, rfl⟩
      · rw [hfail] at h
        cases h
  cases hl : job.literalName? ⟨t, above⟩ with
  | none =>
    rw [Job.frameOf, hl, Option.isSome_none, if_neg Bool.false_ne_true] at hq
    cases hq
    exact ⟨{ p with ancestry := ⟨job.frames above⟩ }, rfl, rfl, .inl ⟨rfl, rfl⟩, hclose⟩
  | some name =>
    rw [Job.frameOf, hl, Option.isSome_some, if_pos rfl] at hq
    rcases dropContext_outcome job { p with ancestry := ⟨job.frames above⟩ } with
      ⟨-, hfail⟩ | ⟨-, hfail⟩ | ⟨c, cs, stack, hc, hne, hok, hstack, howners⟩
    · rw [hfail] at hq
      cases hq
    · rw [hfail] at hq
      cases hq
    · rw [hok] at hq
      cases hq
      exact ⟨_, rfl, howners, .inr ⟨name, c, cs, rfl, hc, hne, hstack⟩, hclose⟩

end Pass

/-! ### Rows -/

namespace Job

open Pass

variable {job : Job} {n : Nat} {above : List Tree} {t : Tree} {p p' : Pass}

/-- Some named node of the row opens a scope without closing it. -/
def Leaks (job : Job) (f : Forest) : Prop :=
  ∃ l ∈ f.preorder, l.named = true ∧ job.opens l = true ∧ job.closes l = false

/-- Between two visits, when `above` is the lineage of the row being walked over and the
nodes with numbers from `n` on are still to come. -/
structure Tracks (job : Job) (n : Nat) (above : List Tree) (p : Pass) : Prop where
  /-- The frames are those of the lineage. -/
  ancestry : p.ancestry = ⟨job.frames above⟩
  /-- The open scopes belong to nodes that have been reached. -/
  earlier : ∀ o ∈ p.stack.owners, o < (n : Int)

namespace Tracks

theorem mono {m : Nat} (h : job.Tracks n above p) (hm : n ≤ m) : job.Tracks m above p :=
  ⟨h.ancestry, fun o ho => Int.lt_of_lt_of_le (h.earlier o ho) (Int.ofNat_le.mpr hm)⟩

theorem enter (h : job.Tracks n above p) (hn : t.label.named = true) (hid : t.label.id = n)
    (he : p.enter job t = .ok p') :
    job.Tracks (n + 1) (t :: above) p' ∧ Entered job ⟨t, above⟩
      ((if job.opens t.label then [[]] else []) ++ p.stack.contexts) p' := by
  have hbrings := enter_brings hn h.ancestry
  rw [he] at hbrings
  refine ⟨⟨hbrings.ancestry, ?_⟩, hbrings⟩
  intro o ho
  rw [enter_owners he, openedBy] at ho
  rcases List.mem_append.mp ho with ho | ho
  · split at ho
    · rw [List.mem_singleton.mp ho, hid]
      omega
    · cases ho
  · have := h.earlier o ho
    omega

theorem leave (h : job.Tracks n (t :: above) p) (hn : t.label.named = true)
    (hl : p.leave job t = .ok p') : job.Tracks n above p' := by
  obtain ⟨q, haq, hoq, -, hclose⟩ := leave_eq_ok hn h.ancestry hl
  rcases hclose with ⟨-, rfl⟩ | ⟨-, rfl⟩
  · exact ⟨haq, fun o ho => h.earlier o (hoq ▸ ho)⟩
  · refine ⟨haq, fun o ho => h.earlier o ?_⟩
    rw [ScopeStack.owners_dropInnermost, hoq] at ho
    exact List.mem_of_mem_tail ho

/-- A walk over a row keeps track. -/
theorem across (f : Forest) : ∀ {n : Nat} {above : List Tree} {p p' : Pass}, f.NumberedFrom n →
    job.Tracks n above p → Pass.across job f p = .ok p' → job.Tracks (n + f.size) above p' := by
  induction f with
  | nil =>
    intro n above p p' _ h hw
    cases hw
    exact h
  | cons l kids rest ihk ihr =>
    intro n above p p' hnum h hw
    obtain ⟨hid, hnumk, hnumr⟩ := hnum
    obtain ⟨p₁, p₂, p₃, h₁, h₂, h₃, hw⟩ := exists_of_across_cons hw
    have hsize : n + (Forest.cons l kids rest).size = n + 1 + kids.size + rest.size := by
      simp only [Forest.size]
      omega
    rw [hsize]
    cases hn : l.named with
    | true =>
      have ht₁ := (h.enter (t := ⟨l, kids⟩) hn hid h₁).1
      have ht₂ := ihk hnumk ht₁ h₂
      exact ihr hnumr (ht₂.leave hn h₃) hw
    | false =>
      rw [enter_of_anonymous hn] at h₁
      rw [leave_of_anonymous hn] at h₃
      cases h₁
      cases h₃
      exact ihr hnumr (ihk hnumk (h.mono (Nat.le_succ n)) h₂) hw

end Tracks

/-- A row that does not leak leaves no scope open. -/
theorem across_owners_of_not_leaks (f : Forest) : ∀ {n : Nat} {above : List Tree} {p p' : Pass},
    f.NumberedFrom n → job.Tracks n above p → Pass.across job f p = .ok p' → ¬ job.Leaks f →
    p'.stack.owners = p.stack.owners := by
  induction f with
  | nil =>
    intro n above p p' _ _ hw _
    cases hw
    rfl
  | cons l kids rest ihk ihr =>
    intro n above p p' hnum h hw htight
    obtain ⟨hid, hnumk, hnumr⟩ := hnum
    have htightk : ¬ job.Leaks kids := fun ⟨l', hl', hleak⟩ =>
      htight ⟨l', by simp [Forest.preorder, hl'], hleak⟩
    have htightr : ¬ job.Leaks rest := fun ⟨l', hl', hleak⟩ =>
      htight ⟨l', by simp [Forest.preorder, hl'], hleak⟩
    obtain ⟨p₁, p₂, p₃, h₁, h₂, h₃, hw⟩ := exists_of_across_cons hw
    cases hn : l.named with
    | true =>
      have ht₁ := (h.enter (t := ⟨l, kids⟩) hn hid h₁).1
      have ht₃ := (ht₁.across kids hnumk h₂).leave hn h₃
      have ho₂ : p₂.stack.owners = [] ++ (job.openedBy l ++ p.stack.owners) := by
        rw [ihk hnumk ht₁ h₂ htightk, enter_owners h₁, List.nil_append]
      -- the node closes the scope it has opened, if any
      have ho₃ : p₃.stack.owners = p.stack.owners := by
        rcases leave_owners_of_kids ⟨l, kids⟩ (fun o ho => hid ▸ h.earlier o ho) (by simp) ho₂
          h₃ with ⟨ho, -⟩ | ⟨ho, hclose⟩
        · exact ho
        · have hopen : job.opens l = false := by
            by_contra hopen
            exact htight ⟨l, by simp [Forest.preorder], hn, by simpa using hopen, hclose hn⟩
          rw [ho, ho₂]
          simp [openedBy, hopen]
      rw [ihr hnumr ht₃ hw htightr, ho₃]
    | false =>
      rw [enter_of_anonymous hn] at h₁
      rw [leave_of_anonymous hn] at h₃
      cases h₁
      cases h₃
      have hskip := h.mono (Nat.le_succ n)
      rw [ihr hnumr (hskip.across kids hnumk h₂) hw htightr, ihk hnumk hskip h₂ htightk]

/-- **A row leaves a scope open just when it leaks.** -/
theorem across_owners_eq_iff {f : Forest} (hnum : f.NumberedFrom n) (h : job.Tracks n above p)
    (hw : Pass.across job f p = .ok p') : p'.stack.owners = p.stack.owners ↔ ¬ job.Leaks f := by
  refine ⟨?_, across_owners_of_not_leaks f hnum h hw⟩
  rintro ho ⟨l, hl, hn, hopen, hclose⟩
  obtain ⟨left, hleft, -, htight⟩ := Pass.across_owners f n p p' hnum h.earlier hw
  have hnil : left = [] := by
    rw [ho] at hleft
    exact List.self_eq_append_left.mp hleft
  rw [htight hnil l hl hn, hopen] at hclose
  cases hclose

/-- A name that is taken off was added to the context of the node itself, or to that of
the scope around it, so empty contexts stand in front of those from before. -/
theorem exists_contexts_of_taken {k : Nat} {opened : Bool} {name? : Option String}
    {cs cs₂ cs₃ : List (List String)}
    (hk : cs₂ = List.replicate k [] ++
      ((if opened then [[]] else []) ++ cs).modifyHead (· ++ name?.toList))
    (h : (name? = none ∧ cs₃ = cs₂) ∨ ∃ name d ds, name? = some name ∧ cs₂ = d :: ds ∧
      d ≠ [] ∧ cs₃ = d.dropLast :: ds) :
    ∃ k, cs₃ = List.replicate k [] ++ cs := by
  rcases h with ⟨rfl, rfl⟩ | ⟨name, d, ds, rfl, hd, hne, rfl⟩
  · refine ⟨k + if opened then 1 else 0, ?_⟩
    rw [hk]
    cases opened <;> cases cs <;> simp [List.replicate_succ']
  · cases k with
    | succ k =>
      rw [hk, List.replicate_succ] at hd
      exact absurd (List.cons.inj hd).1.symm hne
    | zero =>
      refine ⟨if opened then 1 else 0, ?_⟩
      rw [hk, List.replicate_zero, List.nil_append] at hd
      cases hnew : (if opened then [[]] else []) ++ cs with
      | nil => rw [hnew] at hd; cases hd
      | cons e es =>
        rw [hnew, List.modifyHead_cons] at hd
        obtain ⟨rfl, rfl⟩ := List.cons.inj hd
        rw [Option.toList_some, List.dropLast_concat, ← hnew]
        cases opened <;> rfl

/-- A context that is dropped to get back to as many as before is an empty one. -/
theorem exists_contexts_of_dropped {k : Nat} {cs cs₂ : List (List String)}
    (h : cs₂ = List.replicate k [] ++ cs) (hlength : cs₂.tail.length = cs.length) :
    ∃ k, cs₂.tail = List.replicate k [] ++ cs := by
  subst h
  cases k with
  | zero =>
    rw [List.replicate_zero, List.nil_append, List.length_tail] at hlength
    have hnil : cs = [] := List.eq_nil_of_length_eq_zero (by omega)
    exact ⟨0, by simp [hnil]⟩
  | succ k => exact ⟨k, rfl⟩

/-- Leaving a node behind its children, whatever they have left open, leaves the contexts
from before behind empty ones. -/
theorem leave_contexts {k : Nat} {p₁ p₂ p₃ : Pass} (h : job.Tracks n above p)
    (hn : t.label.named = true) (hid : t.label.id = n) (hnum : t.children.NumberedFrom (n + 1))
    (h₁ : p.enter job t = .ok p₁) (h₂ : Pass.across job t.children p₁ = .ok p₂)
    (hk : p₂.stack.contexts = List.replicate k [] ++ p₁.stack.contexts)
    (h₃ : p₂.leave job t = .ok p₃) :
    ∃ k, p₃.stack.contexts = List.replicate k [] ++ p.stack.contexts := by
  obtain ⟨ht₁, hin⟩ := h.enter hn hid h₁
  have ht₂ := ht₁.across t.children hnum h₂
  obtain ⟨q, -, hoq, hcontext, hclose⟩ := leave_eq_ok hn ht₂.ancestry h₃
  -- first the name is taken off
  rw [hin.contexts] at hk
  obtain ⟨k, hq⟩ := exists_contexts_of_taken hk hcontext
  rcases hclose with ⟨-, rfl⟩ | ⟨hc, rfl⟩
  · exact ⟨k, hq⟩
  · -- the scope that is closed is that of the node, so none from before is
    obtain ⟨left, hleft, hlater, -⟩ := Pass.across_owners _ _ _ _ hnum ht₁.earlier h₂
    rw [enter_owners h₁] at hleft
    have howners : (q.stack.dropInnermost).owners = p.stack.owners := by
      rcases leave_owners_of_kids t (fun o ho => hid ▸ h.earlier o ho)
        (fun o ho => Int.lt_of_lt_of_le (by omega) (hlater o ho).1) hleft h₃ with
        ⟨ho, -⟩ | ⟨-, hopen⟩
      · exact ho
      · rw [hopen hn] at hc
        cases hc
    have hlength : q.stack.contexts.tail.length = p.stack.contexts.length := by
      rw [← ScopeStack.contexts_dropInnermost, ScopeStack.length_contexts,
        ScopeStack.length_contexts, ← ScopeStack.length_owners, ← ScopeStack.length_owners, howners]
    rw [ScopeStack.contexts_dropInnermost]
    exact exists_contexts_of_dropped hq hlength

/-- **The contexts behind a row** are those from before, behind an empty one for each
scope that the row has left open. -/
theorem across_contexts (f : Forest) : ∀ {n : Nat} {above : List Tree} {p p' : Pass},
    f.NumberedFrom n → job.Tracks n above p → Pass.across job f p = .ok p' →
    ∃ k, p'.stack.contexts = List.replicate k [] ++ p.stack.contexts := by
  induction f with
  | nil =>
    intro n above p p' _ _ hw
    cases hw
    exact ⟨0, rfl⟩
  | cons l kids rest ihk ihr =>
    intro n above p p' hnum h hw
    obtain ⟨hid, hnumk, hnumr⟩ := hnum
    obtain ⟨p₁, p₂, p₃, h₁, h₂, h₃, hw⟩ := exists_of_across_cons hw
    have hjoin : (∃ k, p₃.stack.contexts = List.replicate k [] ++ p.stack.contexts) →
        (∃ k, p'.stack.contexts = List.replicate k [] ++ p₃.stack.contexts) →
        ∃ k, p'.stack.contexts = List.replicate k [] ++ p.stack.contexts := by
      rintro ⟨j, hj⟩ ⟨k, hk⟩
      exact ⟨k + j, by rw [hk, hj, ← List.append_assoc, ← List.replicate_add]⟩
    cases hn : l.named with
    | true =>
      have ht₁ := (h.enter (t := ⟨l, kids⟩) hn hid h₁).1
      obtain ⟨k, hk⟩ := ihk hnumk ht₁ h₂
      have ht₃ := (ht₁.across kids hnumk h₂).leave hn h₃
      exact hjoin (leave_contexts h hn hid hnumk h₁ h₂ hk h₃) (ihr hnumr ht₃ hw)
    | false =>
      rw [enter_of_anonymous hn] at h₁
      rw [leave_of_anonymous hn] at h₃
      cases h₁
      cases h₃
      have hskip := h.mono (Nat.le_succ n)
      exact hjoin (ihk hnumk hskip h₂) (ihr hnumr (hskip.across kids hnumk h₂) hw)

end Job
end ScopeIndex
