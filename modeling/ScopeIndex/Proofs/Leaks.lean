import Mathlib
import ScopeIndex.Proofs.Contexts

/-!
# Scopes left open inside object literals

A walk stops at its first visit that fails.  Entering a node fails for want of a scope.
Leaving a node fails when scopes do not match up, and in one more way: an object literal
that has added a name to a context takes a name off the context of the innermost scope.
If a node inside the literal has left its scope open, that context is empty, and taking
from it underflows, before anyone notices that the scopes do not match up.

## Main definitions

* `Job.Ends` — a pass has gone over a node and its children and has yet to leave it.
* `Job.ReachesEnd` — the walk over a tree comes that far.
* `Outcome.Orderly` — an index is handed over once, and a failure is one of the family.

## Main results

* `Job.Ends.leave_eq_underflow`, `Job.Ends.leave_scoped` — when leaving a node underflows.
* `Job.run_stop` — where a walk can stop.
* `Job.run_underflow_iff` — a walk underflows just when it comes to the end of a leaking
  literal.
* `Document.index_orderly_iff` — **when indexing a source keeps to its contract.**
-/

namespace ScopeIndex

/-- A run of steps fails at its first step that fails. -/
theorem foldlM_eq_error_iff {ε α β : Type} {f : α → β → Except ε α} {e : ε} :
    ∀ {xs : List β} {a : α}, xs.foldlM f a = .error e ↔
      ∃ before x after b, xs = before ++ x :: after ∧ before.foldlM f a = .ok b ∧
        f b x = .error e := by
  intro xs
  induction xs with
  | nil =>
    intro a
    refine ⟨fun h => (nomatch h), ?_⟩
    rintro ⟨before, x, after, b, h, -⟩
    exact absurd h (by simp)
  | cons y ys ih =>
    intro a
    rw [List.foldlM_cons]
    cases hy : f a y with
    | error e' =>
      constructor
      · intro h
        cases h
        exact ⟨[], y, ys, a, rfl, rfl, hy⟩
      · rintro ⟨before, x, after, b, hsplit, hb, hx⟩
        cases before with
        | nil =>
          obtain ⟨rfl, rfl⟩ := List.cons.inj hsplit
          cases hb
          rw [hy] at hx
          cases hx
          rfl
        | cons z zs =>
          obtain ⟨rfl, rfl⟩ := List.cons.inj hsplit
          rw [List.foldlM_cons, hy] at hb
          cases hb
    | ok a' =>
      refine ih.trans ⟨?_, ?_⟩
      · rintro ⟨before, x, after, b, rfl, hb, hx⟩
        refine ⟨y :: before, x, after, b, rfl, ?_, hx⟩
        rw [List.foldlM_cons, hy]
        exact hb
      · rintro ⟨before, x, after, b, hsplit, hb, hx⟩
        cases before with
        | nil =>
          obtain ⟨rfl, rfl⟩ := List.cons.inj hsplit
          cases hb
          rw [hy] at hx
          cases hx
        | cons z zs =>
          obtain ⟨rfl, rfl⟩ := List.cons.inj hsplit
          rw [List.foldlM_cons, hy] at hb
          exact ⟨zs, x, after, b, rfl, hb, hx⟩

namespace Job

open Pass

variable {job : Job} {s : Site} {q : Pass}

/-! ### The end of a node -/

/-- The pass has gone over the node of a site and its children, and has yet to leave it.
-/
def Ends (job : Job) (s : Site) (q : Pass) : Prop :=
  s.node.label.named = true ∧ s.node.children.NumberedFrom (s.id + 1) ∧
    ∃ p p₁, job.Tracks s.id s.above p ∧ p.enter job s.node = .ok p₁ ∧
      across job s.node.children p₁ = .ok q

namespace Ends

theorem ancestry (h : job.Ends s q) : q.ancestry = ⟨job.frames s.lineage⟩ := by
  obtain ⟨hn, hnum, p, p₁, hp, h₁, h₂⟩ := h
  exact ((hp.enter hn rfl h₁).1.across _ hnum h₂).ancestry

/-- At the end of an object literal that has added a name, the innermost context is that
of a scope which the literal has left open, or else it holds the name. -/
theorem contexts (h : job.Ends s q) {name : String} (hl : job.literalName? s = some name) :
    ∃ c cs, q.stack.contexts = c :: cs ∧ (c = [] ↔ job.Leaks s.node.children) := by
  obtain ⟨hn, hnum, p, p₁, hp, h₁, h₂⟩ := h
  obtain ⟨ht₁, hin⟩ := hp.enter hn rfl h₁
  obtain ⟨k, hk⟩ := across_contexts _ hnum ht₁ h₂
  obtain ⟨d, ds, hd⟩ := List.exists_cons_of_ne_nil (hin.grounded (by simp [hl]))
  have hin₁ : p₁.stack.contexts = (d ++ [name]) :: ds := by
    rw [hin.contexts, hd, hl]
    rfl
  -- the number of contexts tells whether a scope has been left open
  have hleaks : k = 0 ↔ ¬ job.Leaks s.node.children := by
    rw [← across_owners_eq_iff hnum ht₁ h₂]
    obtain ⟨left, hleft, -⟩ := across_owners _ _ _ _ hnum ht₁.earlier h₂
    have hlength : left.length = k := by
      have := congrArg List.length hk
      rw [List.length_append, List.length_replicate, ScopeStack.length_contexts,
        ScopeStack.length_contexts, ← ScopeStack.length_owners, ← ScopeStack.length_owners, hleft,
        List.length_append] at this
      omega
    rw [hleft, List.append_left_eq_self, ← hlength, List.length_eq_zero_iff]
  cases k with
  | zero =>
    refine ⟨d ++ [name], ds, by rw [hk, hin₁]; rfl, ?_⟩
    simpa using hleaks.mp rfl
  | succ k =>
    refine ⟨[], List.replicate k [] ++ p₁.stack.contexts, by rw [hk]; rfl, ?_⟩
    simpa using hleaks

/-- Leaving an object literal that has added a name and leaks underflows. -/
theorem leave_eq_underflow (h : job.Ends s q) (hname : s.addsName = true)
    (hleaks : job.Leaks s.node.children) :
    ∃ stop, q.leave job s.node = .error stop ∧ stop.failure = .underflow .pop := by
  obtain ⟨name, hl⟩ := Option.isSome_iff_exists.mp (job.isSome_literalName? s ▸ hname)
  obtain ⟨c, cs, hc, hempty⟩ := h.contexts hl
  rw [leave_of_cons h.1 h.ancestry, frameOf, hl, Option.isSome_some, if_pos rfl]
  rcases dropContext_outcome job { q with ancestry := ⟨job.frames s.above⟩ } with
    ⟨hnil, -⟩ | ⟨-, hfail⟩ | ⟨c', cs', -, hc', hne, -⟩
  · rw [hc] at hnil
    cases hnil
  · rw [hfail]
    exact ⟨_, rfl, rfl⟩
  · rw [hc] at hc'
    exact absurd ((List.cons.inj hc').1 ▸ hempty.mpr hleaks) hne

/-- Otherwise the name is taken off, and what is left to do is to close the scope of the
node. -/
theorem leave_eq_close (h : job.Ends s q)
    (hsound : s.addsName = true → ¬ job.Leaks s.node.children) :
    ∃ q' : Pass, q'.stack.owners = q.stack.owners ∧
      q.leave job s.node =
        if job.closes s.node.label then q'.closeScope job s.node.label else .ok q' := by
  rw [leave_of_cons h.1 h.ancestry, frameOf, isSome_literalName?]
  cases hname : s.addsName with
  | false => exact ⟨{ q with ancestry := ⟨job.frames s.above⟩ }, rfl, rfl⟩
  | true =>
    obtain ⟨name, hl⟩ := Option.isSome_iff_exists.mp (job.isSome_literalName? s ▸ hname)
    obtain ⟨c, cs, hc, hempty⟩ := h.contexts hl
    rw [if_pos rfl]
    rcases dropContext_outcome job { q with ancestry := ⟨job.frames s.above⟩ } with
      ⟨hnil, -⟩ | ⟨hhead, -⟩ | ⟨-, -, stack, -, -, hok, -, howners⟩
    · rw [hc] at hnil
      cases hnil
    · rw [hc, List.head?_cons, Option.some.injEq] at hhead
      exact absurd (hempty.mp hhead) (hsound hname)
    · rw [hok]
      exact ⟨_, howners, rfl⟩

/-- Otherwise it succeeds, or scopes do not match up. -/
theorem leave_scoped (h : job.Ends s q)
    (hsound : s.addsName = true → ¬ job.Leaks s.node.children) {stop : Stop}
    (hstop : q.leave job s.node = .error stop) :
    ∃ fault, stop.failure = .ofCause job.path (.scope fault) := by
  obtain ⟨q', -, hclose⟩ := h.leave_eq_close hsound
  rw [hclose] at hstop
  split at hstop
  · rcases closeScope_outcome job q' s.node.label with ⟨-, hok⟩ | ⟨-, fault, hfail⟩
    · rw [hok] at hstop
      cases hstop
    · rw [hfail] at hstop
      cases hstop
      exact ⟨fault, rfl⟩
  · cases hstop

/-- A node whose children do not leak can be left if it closes a scope just when it
opens one. -/
theorem leave_eq_ok (h : job.Ends s q) (htight : ¬ job.Leaks s.node.children)
    (hclose : job.closes s.node.label = job.opens s.node.label) :
    ∃ q', q.leave job s.node = .ok q' := by
  obtain ⟨q', howners, hleave⟩ := h.leave_eq_close fun _ => htight
  rw [hleave, hclose]
  cases ho : job.opens s.node.label with
  | false => exact ⟨q', rfl⟩
  | true =>
    -- the children have left nothing open in front of the scope of the node
    obtain ⟨hn, hnum, p, p₁, hp, h₁, h₂⟩ := h
    have hq : q'.stack.owners = (s.node.label.id : Int) :: p.stack.owners := by
      rw [howners, (across_owners_eq_iff hnum (hp.enter hn rfl h₁).1 h₂).mpr htight,
        enter_owners h₁]
      simp [openedBy, hn, ho]
    rcases closeScope_outcome job q' s.node.label with ⟨-, hok⟩ | ⟨hne, -⟩
    · exact ⟨_, hok⟩
    · rw [hq] at hne
      exact absurd rfl hne

end Ends
end Job

/-! ### How far a walk comes -/

/-- The node that is visited. -/
def Visit.node : Visit → Tree
  | enter t => t
  | leave t => t

theorem Pass.step_of_anonymous {job : Job} {p : Pass} {v : Visit}
    (hn : v.node.label.named = false) : p.step job v = .ok p := by
  cases v with
  | enter t => exact enter_of_anonymous hn
  | leave t => exact leave_of_anonymous hn

/-- Where an item stands in a list of two parts, each behind an item of its own. -/
theorem cases_of_append_eq {α : Type} {x y v : α} {xs ys before after : List α}
    (h : x :: xs ++ y :: ys = before ++ v :: after) :
    (before = [] ∧ v = x) ∨ (∃ b a, before = x :: b ∧ xs = b ++ v :: a) ∨
      (before = x :: xs ∧ v = y) ∨ ∃ b, before = x :: xs ++ y :: b ∧ ys = b ++ v :: after := by
  rw [List.cons_append] at h
  cases before with
  | nil => exact .inl ⟨rfl, (List.cons.inj h).1.symm⟩
  | cons w b =>
    refine .inr ?_
    obtain ⟨rfl, htail⟩ := List.cons.inj h
    rcases List.append_eq_append_iff.mp htail with ⟨c, rfl, hc⟩ | ⟨c, hc, hrest⟩
    · cases c with
      | nil => exact .inr (.inl ⟨by rw [List.append_nil], (List.cons.inj hc).1.symm⟩)
      | cons w c =>
        obtain ⟨rfl, hrest⟩ := List.cons.inj hc
        exact .inr (.inr ⟨c, rfl, hrest⟩)
    · cases c with
      | nil => exact .inr (.inl ⟨by rw [hc, List.append_nil], (List.cons.inj hrest).1⟩)
      | cons w c =>
        obtain ⟨rfl, -⟩ := List.cons.inj hrest
        exact .inl ⟨b, c, rfl, hc⟩

/-- Where a visit to a row takes place: when its first node is entered, below it, when it
is left, or behind it. -/
theorem Forest.visits_eq_append {l : Label} {kids rest : Forest} {v : Visit}
    {before after : List Visit} (h : (Forest.cons l kids rest).visits = before ++ v :: after) :
    (before = [] ∧ v = .enter ⟨l, kids⟩) ∨
      (∃ b a, before = .enter ⟨l, kids⟩ :: b ∧ kids.visits = b ++ v :: a) ∨
      (before = .enter ⟨l, kids⟩ :: kids.visits ∧ v = .leave ⟨l, kids⟩) ∨
      ∃ b, before = .enter ⟨l, kids⟩ :: kids.visits ++ .leave ⟨l, kids⟩ :: b ∧
        rest.visits = b ++ v :: after :=
  cases_of_append_eq h

namespace Job

open Pass

variable {job : Job} {tree : Tree} {stop : Stop}

/-- The pass is about to visit the node of a site. -/
def Faces (job : Job) (s : Site) (q : Pass) : Visit → Prop
  | .enter t => s.node = t ∧ s.node.label.named = true ∧ job.Tracks s.id s.above q
  | .leave t => s.node = t ∧ job.Ends s q

/-- Wherever a walk over a row has come, the next named node to be visited is that of a
site, and if it is to be left, the walk has gone over it and its children. -/
theorem exists_faces (f : Forest) : ∀ {n : Nat} {above : List Tree} {p q : Pass} {v : Visit}
    {before after : List Visit}, f.NumberedFrom n → job.Tracks n above p →
    v.node.label.named = true → f.visits = before ++ v :: after →
    before.foldlM (step job) p = .ok q → ∃ s ∈ f.sites above, job.Faces s q v := by
  induction f with
  | nil =>
    intro n above p q v before after _ _ _ hv
    exact absurd hv (by simp [Forest.visits])
  | cons l kids rest ihk ihr =>
    intro n above p q v before after hnum h hnamed hv hw
    obtain ⟨rfl, hnumk, hnumr⟩ := hnum
    rcases Forest.visits_eq_append hv with
      ⟨rfl, rfl⟩ | ⟨b, a, rfl, hk⟩ | ⟨rfl, rfl⟩ | ⟨b, rfl, hr⟩
    · -- the first node is entered
      have hn : l.named = true := hnamed
      cases hw
      exact ⟨⟨⟨l, kids⟩, above⟩, by simp [Forest.sites_cons_of_named hn], rfl, hn, h⟩
    · -- below the first node
      obtain ⟨p₁, h₁, hw⟩ := exists_of_bind_eq_ok hw
      cases hn : l.named with
      | true =>
        have ht₁ := (h.enter (t := ⟨l, kids⟩) hn rfl h₁).1
        obtain ⟨s, hs, hfaces⟩ := ihk hnumk ht₁ hnamed hk hw
        exact ⟨s, by simp [Forest.sites_cons_of_named hn, hs], hfaces⟩
      | false =>
        rw [step, enter_of_anonymous hn] at h₁
        cases h₁
        obtain ⟨s, hs, hfaces⟩ := ihk hnumk (h.mono (Nat.le_succ _)) hnamed hk hw
        exact ⟨s, by simp [Forest.sites_cons_of_anonymous hn, hs], hfaces⟩
    · -- the first node is left
      have hn : l.named = true := hnamed
      obtain ⟨p₁, h₁, hw⟩ := exists_of_bind_eq_ok hw
      refine ⟨⟨⟨l, kids⟩, above⟩, ?_, rfl, hn, hnumk, p, p₁, h, h₁, hw⟩
      simp [Forest.sites_cons_of_named hn]
    · -- behind the first node
      rw [List.foldlM_append] at hw
      obtain ⟨p₂, h₂, hw⟩ := exists_of_bind_eq_ok hw
      obtain ⟨p₁, h₁, h₂⟩ := exists_of_bind_eq_ok h₂
      obtain ⟨p₃, h₃, hw⟩ := exists_of_bind_eq_ok hw
      cases hn : l.named with
      | true =>
        have ht₁ := (h.enter (t := ⟨l, kids⟩) hn rfl h₁).1
        have ht₃ := (ht₁.across kids hnumk h₂).leave hn h₃
        obtain ⟨s, hs, hfaces⟩ := ihr hnumr ht₃ hnamed hr hw
        exact ⟨s, by simp [Forest.sites_cons_of_named hn, hs], hfaces⟩
      | false =>
        rw [step, enter_of_anonymous hn] at h₁
        rw [step, leave_of_anonymous hn] at h₃
        cases h₁
        cases h₃
        have ht₂ := (h.mono (Nat.le_succ _)).across kids hnumk h₂
        obtain ⟨s, hs, hfaces⟩ := ihr hnumr ht₂ hnamed hr hw
        exact ⟨s, by simp [Forest.sites_cons_of_anonymous hn, hs], hfaces⟩

/-- The walk over a tree comes to the end of a node: all visits before the node is left
succeed. -/
def ReachesEnd (job : Job) (tree t : Tree) : Prop :=
  ∃ before after q, tree.numbered.visits = before ++ .leave t :: after ∧
    before.foldlM (step job) {} = .ok q

theorem tracks_start (job : Job) : job.Tracks 1 [] {} :=
  ⟨rfl, by simp [ScopeStack.owners, ScopeStack.empty]⟩

/-- **Where a walk can stop**: at a node that is entered, for want of a scope; at a node
that is left; or at the end, with scopes left open. -/
theorem run_stop (h : run job tree = .error stop) :
    (∃ fault : ScopeFault, fault.isWant = true ∧
        stop.failure = .ofCause job.path (.scope fault)) ∨
      (∃ s ∈ tree.numbered.sites, ∃ q, job.Ends s q ∧ job.ReachesEnd tree s.node ∧
        q.leave job s.node = .error stop) ∨
      ∃ p, across job tree.numbered.toForest {} = .ok p ∧ p.stack.depth ≠ 0 ∧
        stop.failure = .ofCause job.path (.scope (.leftOpen p.stack.depth)) := by
  rw [run, walk_eq] at h
  cases hw : across job tree.numbered.toForest {} with
  | ok p =>
    rw [hw] at h
    change (if p.stack.depth = 0 then Except.ok p else _) = Except.error stop at h
    split at h
    · cases h
    · next hdepth =>
      cases h
      exact .inr (.inr ⟨p, rfl, hdepth, rfl⟩)
  | error stop' =>
    rw [hw] at h
    cases h
    obtain ⟨before, v, after, q, hv, hq, hfail⟩ := foldlM_eq_error_iff.mp hw
    cases hn : v.node.label.named with
    | false =>
      rw [step_of_anonymous hn] at hfail
      cases hfail
    | true =>
      obtain ⟨s, hs, hfaces⟩ :=
        exists_faces _ tree.numberedFrom_numbered job.tracks_start hn hv hq
      cases v with
      | enter t =>
        obtain ⟨rfl, hnamed, htracks⟩ := hfaces
        have hbrings := enter_brings hnamed htracks.ancestry
        rw [step] at hfail
        rw [hfail] at hbrings
        exact .inl hbrings
      | leave t =>
        obtain ⟨rfl, hends⟩ := hfaces
        exact .inr (.inl ⟨s, hs, q, hends, ⟨before, after, q, hv, hq⟩, hfail⟩)

/-- A walk stops because scopes do not match up, or it underflows at the end of an object
literal that has added a name and leaks. -/
theorem run_stop_cases (h : run job tree = .error stop) :
    (∃ fault, stop.failure = .ofCause job.path (.scope fault)) ∨
      (stop.failure = .underflow .pop ∧ ∃ s ∈ tree.numbered.sites, s.addsName = true ∧
        job.Leaks s.node.children ∧ job.ReachesEnd tree s.node) := by
  rcases run_stop h with ⟨fault, -, hfail⟩ | ⟨s, hs, q, hends, hreach, hleave⟩ | ⟨p, -, -, hfail⟩
  · exact .inl ⟨fault, hfail⟩
  · by_cases hleak : s.addsName = true ∧ job.Leaks s.node.children
    · obtain ⟨stop', hstop', hfail⟩ := hends.leave_eq_underflow hleak.1 hleak.2
      rw [hleave] at hstop'
      cases hstop'
      exact .inr ⟨hfail, s, hs, hleak.1, hleak.2, hreach⟩
    · exact .inl (hends.leave_scoped (fun hname hl => hleak ⟨hname, hl⟩) hleave)
  · exact .inl ⟨_, hfail⟩

/-- A walk that comes to the end of an object literal that has added a name and leaks
underflows there. -/
theorem run_eq_underflow {s : Site} (hs : s ∈ tree.numbered.sites) (hname : s.addsName = true)
    (hleaks : job.Leaks s.node.children) (hreach : job.ReachesEnd tree s.node) :
    ∃ stop, run job tree = .error stop ∧ stop.failure = .underflow .pop := by
  obtain ⟨before, after, q, hv, hq⟩ := hreach
  have hnamed : s.node.label.named = true :=
    Forest.named_of_mem_sites _ hs (by simp) s.node List.mem_cons_self
  obtain ⟨s', hs', hnode, hends⟩ :=
    exists_faces (v := .leave s.node) _ tree.numberedFrom_numbered job.tracks_start hnamed hv hq
  -- numbers tell sites apart
  obtain rfl : s' = s :=
    List.inj_on_of_nodup_map tree.nodup_sites_numbered hs' hs (congrArg (·.label.id) hnode)
  obtain ⟨stop, hstop, hfail⟩ := hends.leave_eq_underflow hname hleaks
  have hw : across job tree.numbered.toForest {} = .error stop :=
    foldlM_eq_error_iff.mpr ⟨before, _, after, q, hv, hq, hstop⟩
  refine ⟨stop, ?_, hfail⟩
  rw [run, walk_eq, hw]
  rfl

/-- **A walk underflows just when it comes to the end of an object literal that has added
a name and leaks.** -/
theorem run_underflow_iff :
    (∃ stop, run job tree = .error stop ∧ stop.failure = .underflow .pop) ↔
      ∃ s ∈ tree.numbered.sites, s.addsName = true ∧ job.Leaks s.node.children ∧
        job.ReachesEnd tree s.node := by
  constructor
  · rintro ⟨stop, hrun, hfail⟩
    rcases run_stop_cases hrun with ⟨fault, hscope⟩ | ⟨-, hleak⟩
    · rw [hfail] at hscope
      cases hscope
    · exact hleak
  · rintro ⟨s, hs, hname, hleaks, hreach⟩
    exact run_eq_underflow hs hname hleaks hreach

end Job

/-! ### Indexing a source -/

/-- An index is handed over once, with its own scopes.  A failure is an unparsable
source, a missing collaborator, or scopes that do not match up, and nothing is handed
over then. -/
def Outcome.Orderly (o : Outcome FileIndex) : Prop :=
  (∃ file, o.result = .ok file ∧ o.completions = [file.scopes]) ∨
    ∃ e : IndexingError, o.result = .error (.indexing e) ∧
      e.cause.family ∈ [Family.parse, .collaborator, .scopeMismatch] ∧ o.completions = []

theorem Outcome.not_orderly_of_underflow {o : Outcome FileIndex} {u : Underflow}
    (h : o.result = .error (.underflow u)) : ¬ o.Orderly := by
  rintro (⟨file, hok, -⟩ | ⟨e, herror, -⟩)
  · rw [h] at hok
    cases hok
  · rw [h] at herror
    cases herror

namespace Document

variable {source : Source} {tree : Tree} {path : String} {rules : IndexRules}

/-- A source that is refused is reported as unparsable. -/
theorem orderly_of_refused (h : tree.hasError = true) (ht : rules.tolerant = false) :
    ((⟨source, some tree⟩ : Document).index path rules).Orderly := by
  refine .inr ⟨⟨.unparsable (source.lineOf tree.faultLabel), some path⟩, ?_,
    by simp [Cause.family], ?_⟩
  · simp [index, parse, h, ht, Outcome.failed, Failure.ofCause]
  · simp [index, parse, h, ht, Outcome.failed]

/-- A source that is not refused has the result of its walk, and an index is handed over
once. -/
theorem index_of_parsed (h : tree.hasError = true → rules.tolerant = true) :
    let outcome := (⟨source, some tree⟩ : Document).index path rules
    (∃ p file, Pass.run (Job.ofRules source path rules) tree = .ok p ∧ outcome.result = .ok file ∧
        outcome.completions = [file.scopes]) ∨
      ∃ stop, Pass.run (Job.ofRules source path rules) tree = .error stop ∧
        outcome.result = .error stop.failure ∧ outcome.completions = [] := by
  have hparse : ((⟨source, some tree⟩ : Document).parse path rules.tolerant).result = .ok tree := by
    unfold parse
    by_cases he : tree.hasError = true
    · simp [he, h he]
    · simp [he]
  intro outcome
  cases hrun : Pass.run (Job.ofRules source path rules) tree with
  | ok p =>
    exact .inl ⟨p, ⟨path, some (Sha256.hex source.bytes), p.scopes⟩, rfl,
      by simp [outcome, index, hparse, indexTree, Job.indexTree, hrun]⟩
  | error stop =>
    exact .inr ⟨stop, rfl, by simp [outcome, index, hparse, indexTree, Job.indexTree, hrun]⟩

/-- A row leaks if it holds a node of a type that opens scopes and does not close them. -/
theorem leaks_iff {f : Forest} : (Job.ofRules source path rules).Leaks f ↔
    ∃ l ∈ f.preorder, l.named = true ∧ l.type ∈ rules.boundary.opening ∧
      l.type ∉ rules.boundary.closing := by
  refine exists_congr fun l => and_congr_right fun _ => and_congr_right fun hn => ?_
  change rules.boundary.opens l = true ∧ rules.boundary.closes l = false ↔ _
  rw [Boundary.opens_of_named _ hn, Boundary.closes_of_named _ hn]
  simp

/-- Every node inside a literal that the walk comes to the end of closes what it opens,
just when the walk does not underflow. -/
theorem forall_closing_iff :
    (∀ s ∈ tree.numbered.sites, s.addsName = true →
      (Job.ofRules source path rules).ReachesEnd tree s.node →
        ∀ l ∈ s.node.children.preorder, l.named = true →
          l.type ∈ rules.boundary.opening → l.type ∈ rules.boundary.closing) ↔
      ¬ ∃ stop, Pass.run (Job.ofRules source path rules) tree = .error stop ∧
        stop.failure = .underflow .pop := by
  rw [Job.run_underflow_iff]
  constructor
  · rintro h ⟨s, hs, hname, hleaks, hreach⟩
    obtain ⟨l, hl, hn, ho, hc⟩ := leaks_iff.mp hleaks
    exact hc (h s hs hname hreach l hl hn ho)
  · intro h s hs hname hreach l hl hn ho
    by_contra hc
    exact h ⟨s, hs, hname, leaks_iff.mpr ⟨l, hl, hn, ho, hc⟩, hreach⟩

/-- **When indexing a source keeps to its contract.**  It does unless the walk comes to the
end of an object literal that has added a name to a context, and a node inside the
literal opens a scope that it does not close; taking the name off underflows then. -/
theorem index_orderly_iff (source : Source) (tree : Tree) (path : String) (rules : IndexRules) :
    let outcome := (⟨source, some tree⟩ : Document).index path rules
    (outcome.Orderly ↔
        ((tree.hasError = true → rules.tolerant = true) →
          ∀ s ∈ tree.numbered.sites, s.addsName = true →
            (Job.ofRules source path rules).ReachesEnd tree s.node →
              ∀ l ∈ s.node.children.preorder, l.named = true →
                l.type ∈ rules.boundary.opening → l.type ∈ rules.boundary.closing)) ∧
      (¬ outcome.Orderly →
        outcome.result = .error (.underflow .pop) ∧ outcome.completions = []) := by
  intro outcome
  by_cases hparsed : tree.hasError = true → rules.tolerant = true
  · -- the condition says that the walk does not underflow
    rw [forall_prop_of_true hparsed, forall_closing_iff]
    rcases @index_of_parsed source tree path rules hparsed with
      ⟨p, file, hrun, hresult, hdone⟩ | ⟨stop, hrun, hresult, hdone⟩
    · have horderly : outcome.Orderly := .inl ⟨file, hresult, hdone⟩
      exact ⟨iff_of_true horderly (by simp [hrun]), fun h => absurd horderly h⟩
    · rcases Job.run_stop_cases hrun with ⟨fault, hscope⟩ | ⟨hfail, -⟩
      · have horderly : outcome.Orderly :=
          .inr ⟨_, hresult.trans (congrArg _ hscope), by simp [Cause.family], hdone⟩
        exact ⟨iff_of_true horderly (by simp [hrun, hscope, Failure.ofCause]),
          fun h => absurd horderly h⟩
      · rw [hfail] at hresult
        have hunderflow : ¬ outcome.Orderly := Outcome.not_orderly_of_underflow hresult
        exact ⟨iff_of_false hunderflow fun h => h ⟨stop, hrun, hfail⟩, fun _ => ⟨hresult, hdone⟩⟩
  · obtain ⟨he, ht⟩ := Classical.not_imp.mp hparsed
    have hrefused : outcome.Orderly := orderly_of_refused he (by simpa using ht)
    exact ⟨⟨fun _ h => absurd h hparsed, fun _ => hrefused⟩, fun h => absurd hrefused h⟩

end Document

/-! ### A literal whose constant opens a scope -/

namespace Sample

/-- A literal with one property. -/
def leakingSource : Source := .ofText "var o=\x7ba:1\x7d"

/-- Its tree. -/
def leakingTree : Tree :=
  let pair : Forest :=
    .cons { type := "property_identifier", span := ⟨7, 8⟩, field := some "key" } .nil <|
    .cons { type := ":", span := ⟨8, 9⟩, named := false } .nil <|
    .cons { type := "number", span := ⟨9, 10⟩, field := some "value" } .nil .nil
  let literal : Forest :=
    .cons { type := "\x7b", span := ⟨6, 7⟩, named := false } .nil <|
    .cons { type := "pair", span := ⟨7, 10⟩ } pair <|
    .cons { type := "\x7d", span := ⟨10, 11⟩, named := false } .nil .nil
  let binding : Forest :=
    .cons { type := "identifier", span := ⟨4, 5⟩, field := some "name" } .nil <|
    .cons { type := "=", span := ⟨5, 6⟩, named := false } .nil <|
    .cons { type := "object", span := ⟨6, 11⟩, field := some "value" } literal .nil
  let declaration : Forest :=
    .cons { type := "var", span := ⟨0, 3⟩, named := false } .nil <|
    .cons { type := "variable_declarator", span := ⟨4, 11⟩ } binding .nil
  ⟨{ type := "program", span := ⟨0, 11⟩ },
    .cons { type := "variable_declaration", span := ⟨0, 11⟩ } declaration .nil⟩

/-- Numbers open scopes, and nothing closes them. -/
def leakingBoundary : Boundary := ⟨["program", "number"], ["program"], none⟩

end Sample

/-- A number that leaves its scope open makes the literal around it underflow, and the
failure is none of the family. -/
theorem Document.index_not_orderly_sample :
    ¬ ((⟨Sample.leakingSource, some Sample.leakingTree⟩ : Document).index "<memory>"
      ⟨false, "?", Sample.leakingBoundary⟩).Orderly := by
  have hresult : ((⟨Sample.leakingSource, some Sample.leakingTree⟩ : Document).index "<memory>"
      ⟨false, "?", Sample.leakingBoundary⟩).result = .error (.underflow .pop) := by
    have hparse : ((⟨Sample.leakingSource, some Sample.leakingTree⟩ : Document).parse "<memory>"
        false).result = .ok Sample.leakingTree := by decide +kernel
    have hwalk : (Document.indexTree Sample.leakingSource Sample.leakingTree "<memory>"
        ⟨false, "?", Sample.leakingBoundary⟩).result = .error (.underflow .pop) := by
      rw [Document.indexTree, Job.indexTree, Pass.run, Pass.walk_eq]
      decide +kernel
    simp only [Document.index, hparse, hwalk]
  rintro (⟨file, hok, -⟩ | ⟨e, herror, -⟩)
  · rw [hresult] at hok
    cases hok
  · rw [hresult] at herror
    cases herror

end ScopeIndex
