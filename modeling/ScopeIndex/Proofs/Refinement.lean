import Mathlib
import ScopeIndex.Proofs.Lineage
import ScopeIndex.Proofs.Mirror
import ScopeIndex.Proofs.Numbering

/-!
# A walk does what ancestors say

The walk keeps three stacks, of frames, of scopes, and of names within each scope, and
each of them is pushed and popped at its own moments.  Between two visits they hold what
the lineage of the row being walked over and the sites before it say.  The induction is
over rows of subtrees: a step lemma for entering a node, one for leaving it, and from
them the run lemma, which also says exactly when a walk breaks off.

## Main definitions

* `Pass.Settles` — a step succeeds under an exact condition, and stops for want of a
  scope otherwise.
* `Job.Grounded` — a site finds the scopes it needs.
* `Job.Follows` — a pass holds what lineage and sites say.
* `Job.Serves` — a step does what a site asks for.

## Main results

* `Job.enter_settles`, `Job.leave_settles` — one visit.
* `Job.across_settles` — a walk over a row.
* `Job.run_settles` — a walk over a tree whose scopes are closed by the nodes that open
  them.
-/

namespace ScopeIndex

/-! ### Exact outcomes -/

/-- The step succeeds just when `good` holds, and gives a pass with `post`; otherwise it
stops because scopes do not match up. -/
def Pass.Settles (job : Job) (good : Prop) (post : Pass → Prop) : Except Stop Pass → Prop
  | .ok p => good ∧ post p
  | .error stop => ¬ good ∧ ∃ fault, stop.failure = .ofCause job.path (.scope fault)

namespace Pass.Settles

variable {job : Job} {good good' : Prop} {post post' : Pass → Prop} {r : Except Stop Pass}

theorem imp (h : Settles job good post r) (hg : good ↔ good') (hp : ∀ p, post p → post' p) :
    Settles job good' post' r := by
  cases r with
  | ok p => exact ⟨hg.mp h.1, hp p h.2⟩
  | error stop => exact ⟨fun h' => h.1 (hg.mpr h'), h.2⟩

theorem bind {k : Pass → Except Stop Pass} (h : Settles job good post r)
    (hk : ∀ p, good → post p → Settles job good' post' (k p)) :
    Settles job (good ∧ good') post' (r >>= k) := by
  cases r with
  | ok p =>
    refine (hk p h.1 h.2).imp ?_ fun _ => id
    exact ⟨fun hg => ⟨h.1, hg⟩, And.right⟩
  | error stop => exact ⟨fun hg => h.1 hg.1, h.2⟩

theorem of_fail {p : Pass} {fault : ScopeFault} (h : ¬ good) :
    Settles job good post (p.fail (.ofCause job.path (.scope fault))) :=
  ⟨h, fault, rfl⟩

end Pass.Settles

namespace Job

open Pass

variable (job : Job)

/-! ### What a site needs -/

/-- The site finds the scopes it needs: one to record its mention in, and one to nest
its name in. -/
def Grounded (s : Site) : Prop :=
  (∀ m, job.mention? s = some m → m.scopes ≠ []) ∧
    (job.literalName? s ≠ none → job.scopeIds s.lineage ≠ [])

variable {job} {n : Nat} {s : Site} {opened : List Site} {tables : Nat → SymbolTable} {p : Pass}

theorem grounded_of_none (hm : job.mention? s = none) (hl : job.literalName? s = none) :
    job.Grounded s :=
  ⟨fun _ h => (nomatch hm.symm.trans h), fun h => absurd hl h⟩

theorem grounded_iff_of_mention {m : Mention} (hm : job.mention? s = some m)
    (hl : job.literalName? s = none) : job.Grounded s ↔ m.scopes ≠ [] := by
  refine ⟨fun h => h.1 m hm, fun h => ⟨?_, fun hne => absurd hl hne⟩⟩
  intro m' hm'
  rw [hm] at hm'
  cases hm'
  exact h

@[simp] theorem mentions_singleton_of_none (hm : job.mention? s = none) :
    job.mentions [s] = [] := by
  simp [mentions, hm]

@[simp] theorem mentions_singleton_of_some {m : Mention} (hm : job.mention? s = some m) :
    job.mentions [s] = [m] := by
  simp [mentions, hm]

variable (job)

/-- The pass when the node of a site has its frame and its scope, and nothing else has
been done for it. -/
structure Reached (n : Nat) (s : Site) (opened : List Site) (tables : Nat → SymbolTable)
    (p : Pass) : Prop where
  /-- The frame of the node is as it was put there. -/
  ancestry : p.ancestry = ⟨s.frame :: job.frames s.above⟩
  /-- The scope of the node is open. -/
  mirrors : job.Mirrors n s.lineage s.above opened tables p.stack
  /-- The node is none of its ancestors. -/
  outer : s.id ∉ job.scopeIds s.above

/-- The pass between two visits, when `above` is the lineage of the row being walked
over. -/
structure Follows (n : Nat) (above : List Tree) (opened : List Site) (tables : Nat → SymbolTable)
    (p : Pass) : Prop where
  /-- The frames are those of the lineage. -/
  ancestry : p.ancestry = ⟨job.frames above⟩
  /-- The stack mirrors the lineage. -/
  mirrors : job.Mirrors n above above opened tables p.stack

/-- The step records what a site mentions, just when the site finds the scopes it needs.
-/
def Serves (n : Nat) (s : Site) (opened : List Site) (tables : Nat → SymbolTable)
    (r : Except Stop Pass) : Prop :=
  Settles job (job.Grounded s)
    (job.Follows n s.lineage opened ((job.mentions [s]).foldl Mention.place tables)) r

variable {job}

/-- What a site leaves behind when it only had something to record. -/
theorem Follows.of_mirrors {q : Pass} (hq : q.ancestry = ⟨job.frames s.lineage⟩)
    (h : job.Mirrors n s.lineage s.above opened tables q.stack) (hl : job.literalName? s = none) :
    job.Follows n s.lineage opened tables q :=
  ⟨hq, h.congr_above fun k => contextOf_cons_of_none job hl (some k)⟩

/-! ### Entering a node -/

section Serving

variable (ha : p.ancestry = ⟨job.frames s.lineage⟩)
  (h : job.Mirrors n s.lineage s.above opened tables p.stack) (hl : job.literalName? s = none)

include ha h hl

/-- Nothing is to be done for a site that mentions nothing. -/
theorem serves_of_none (hm : job.mention? s = none) : job.Serves n s opened tables (.ok p) := by
  rw [Serves, mentions_singleton_of_none hm]
  exact ⟨grounded_of_none hm hl, .of_mirrors ha h hl⟩

/-- Recording a name serves a site that mentions it in view of the same scopes. -/
theorem serves_record {skip : Nat} {scopes : List Nat} {name : String} {span : Span}
    {declaring : Bool} (hs : (job.scopeIds s.lineage).drop skip = scopes)
    (hm : job.mention? s = some (job.mentionAt s scopes name span declaring)) :
    job.Serves n s opened tables (p.record job name span declaring skip) := by
  rw [Serves, mentions_singleton_of_some hm, grounded_iff_of_mention hm hl, mentionAt]
  cases scopes with
  | nil =>
    have hd : p.stack.chain.drop skip = [] := by
      rw [h.scopeIds_eq, ← List.map_drop] at hs
      exact List.map_eq_nil_iff.mp hs
    rw [record_of_drop_nil hd]
    exact .of_fail fun hne => hne rfl
  | cons k ks =>
    obtain ⟨stack, hrec, hstack⟩ := h.record hs name span declaring
    have hctx : job.contextOf (some k) s.lineage = job.contextOf (some k) s.above :=
      contextOf_cons_of_none job hl (some k)
    rw [hrec, List.head?_cons, hctx]
    exact ⟨List.cons_ne_nil k ks, .of_mirrors ha hstack hl⟩

end Serving

theorem frameOf_of_kind (h₁ : s.kind ≠ .memberAccess) (h₂ : s.kind ≠ .objectLiteral) :
    job.frameOf s = s.frame := by
  simp [frameOf, Site.frame, h₁, literalName?_of_kind_ne job h₂]

theorem Reached.ancestry_eq (h : job.Reached n s opened tables p) (h₁ : s.kind ≠ .memberAccess)
    (h₂ : s.kind ≠ .objectLiteral) : p.ancestry = ⟨job.frames s.lineage⟩ := by
  rw [h.ancestry, Site.lineage, frames_cons, frameOf_of_kind h₁ h₂]

theorem enterIdentifier_serves (h : job.Reached n s opened tables p) (hk : s.kind = .identifier) :
    job.Serves n s opened tables (p.enterIdentifier job s.node) := by
  have ha : p.ancestry = ⟨job.frames s.lineage⟩ := h.ancestry_eq (by simp [hk]) (by simp [hk])
  have hl : job.literalName? s = none := literalName?_of_kind_ne job (by simp [hk])
  unfold enterIdentifier
  have hf : s.frame.field = s.node.label.field := rfl
  simp only [h.ancestry, isAccessedProperty_frames job hf, isLiteralMethodName_frames job hf,
    isDeclaring_frames job hf, parentHere?_frames]
  split
  · next hp =>
    -- the parent is there, and its frame holds its path
    obtain ⟨q, hq, hqk⟩ := Site.exists_parent_of_isPart hp
    have hname : ((s.parent?.map job.frameOf).bind (·.name)).getD "" =
        (job.accessName q.node).path := by
      simp [hq, frameOf, hqk]
    rw [hname]
    exact serves_record ha h.mirrors hl rfl (by simp [mention?, hk, hp, hq])
  · next hp =>
    split
    · next hn => exact serves_of_none ha h.mirrors hl (by simp [mention?, hk, hp, hn])
    · next hn => exact serves_record ha h.mirrors hl rfl (by simp [mention?, hk, hp, hn])

theorem enterMemberAccess_serves (h : job.Reached n s opened tables p)
    (hk : s.kind = .memberAccess) :
    job.Serves n s opened tables (p.enterMemberAccess job s.node) := by
  have hl : job.literalName? s = none := literalName?_of_kind_ne job (by simp [hk])
  -- the frame gets its path first
  have hf : job.frames s.lineage =
      { s.frame with name := some (job.accessName s.node).path } :: job.frames s.above := by
    rw [Site.lineage, frames_cons]
    simp [frameOf, Site.frame, hk, hl]
  unfold enterMemberAccess
  simp only
  generalize hq : noteGaps job _ _ = q
  have ha : q.ancestry = ⟨job.frames s.lineage⟩ := by
    rw [← hq, hf]
    simp [noteGaps, note, Ancestry.modifyTop, h.ancestry]
  have hmir : job.Mirrors n s.lineage s.above opened tables q.stack := by
    rw [← hq]
    exact h.mirrors
  split
  · next property hp =>
    split
    · next hlit => exact serves_record ha hmir hl rfl (by simp [mention?, hk, hp, hlit])
    · next hlit => exact serves_of_none ha hmir hl (by simp [mention?, hk, hp, hlit])
  · next hp => exact serves_of_none ha hmir hl (by simp [mention?, hk, hp])

/-- When no scope is open, none is open around the node. -/
theorem Reached.scopeIds_above_of_nil (h : job.Reached n s opened tables p)
    (hc : p.stack.chain = []) :
    job.scopeIds s.above = [] := by
  have hlin : job.scopeIds s.lineage = [] := by
    rw [h.mirrors.scopeIds_eq, hc]
    rfl
  cases ho : job.opens s.node.label with
  | true => rw [Site.lineage, scopeIds_cons_of_opens job _ ho] at hlin; cases hlin
  | false => rwa [Site.lineage, scopeIds_cons_of_not_opens job _ ho] at hlin

/-- Skipping the innermost scope if it belongs to the node leaves the scopes around the
node. -/
theorem Reached.drop_skip (h : job.Reached n s opened tables p) {i : Nat} {is : List Nat}
    (hc : p.stack.chain = i :: is) :
    (job.scopeIds s.lineage).drop (if (p.stack.scopeAt i).owner = s.node.label.id then 1 else 0) =
      job.scopeIds s.above := by
  have hhead : (job.scopeIds s.lineage).head? = some (p.stack.scopeAt i).owner.toNat := by
    rw [h.mirrors.scopeIds_eq, hc]
    rfl
  obtain ⟨u, -, hu⟩ := h.mirrors.site_at (hc ▸ List.mem_cons_self : i ∈ p.stack.chain)
  cases ho : job.opens s.node.label with
  | true =>
    rw [Site.lineage, scopeIds_cons_of_opens job _ ho] at hhead ⊢
    have howner : (p.stack.scopeAt i).owner = s.node.label.id := by
      rw [hu] at hhead ⊢
      exact congrArg Int.ofNat (Option.some.inj hhead).symm
    rw [if_pos howner]
    rfl
  | false =>
    rw [Site.lineage, scopeIds_cons_of_not_opens job _ ho] at hhead ⊢
    have howner : (p.stack.scopeAt i).owner ≠ s.node.label.id := by
      intro he
      rw [he] at hhead
      exact h.outer (List.mem_of_head? hhead)
    rw [if_neg howner]
    rfl

theorem enterMethod_serves (h : job.Reached n s opened tables p) (hk : s.kind = .method) :
    job.Serves n s opened tables (p.enterMethod job s.node) := by
  have ha : p.ancestry = ⟨job.frames s.lineage⟩ := h.ancestry_eq (by simp [hk]) (by simp [hk])
  have hl : job.literalName? s = none := literalName?_of_kind_ne job (by simp [hk])
  unfold enterMethod
  rw [h.ancestry, parentKindIsHere_frames]
  split
  · next hin =>
    split
    · next hc => exact serves_of_none ha h.mirrors hl (by simp [mention?, hk, hin, hc])
    · next name hc =>
      have hm : job.mention? s = some (job.mentionAt s (job.scopeIds s.above)
          (Name.ofKey job.source job.marker name).path name.label.span
          (s.parent?.any fun o => o.isInitial)) := by
        simp [mention?, hk, hin, hc]
      have hdec : (Ancestry.up 1 p.ancestry).initialisesBinding =
          s.parent?.any fun o => o.isInitial := by
        rw [h.ancestry, Ancestry.up_one_cons]
        obtain ⟨t, ts⟩ := s
        cases ts with
        | nil => rfl
        | cons o os => exact job.initialisesBinding_frames (s := ⟨o, os⟩) rfl
      cases hchain : p.stack.chain with
      | nil =>
        rw [ScopeStack.innermost, hchain]
        exact .of_fail fun hg => hg.1 _ hm (h.scopeIds_above_of_nil hchain)
      | cons i is =>
        rw [ScopeStack.innermost, hchain, ← h.ancestry, hdec]
        exact serves_record (p := p.noteGaps job _) ha h.mirrors hl (h.drop_skip hchain) hm
  · next hin => exact serves_of_none ha h.mirrors hl (by simp [mention?, hk, hin])

theorem enterObjectLiteral_serves (h : job.Reached n s opened tables p)
    (hk : s.kind = .objectLiteral) :
    job.Serves n s opened tables (p.enterObjectLiteral job) := by
  have hm : job.mention? s = none := by simp [mention?, hk]
  have hname := job.contextName?_frames (s := s) (f := s.frame) rfl hk
  unfold enterObjectLiteral
  rw [h.ancestry]
  split
  · next hc =>
    rw [hc] at hname
    have hl : job.literalName? s = none := hname.symm
    have ha : p.ancestry = ⟨job.frames s.lineage⟩ := by
      rw [h.ancestry, Site.lineage, frames_cons]
      simp [frameOf, Site.frame, hk, hl]
    exact serves_of_none ha h.mirrors hl hm
  · next name hc =>
    rw [hc] at hname
    have hl : job.literalName? s = some name.path := hname.symm
    rw [Serves, mentions_singleton_of_none hm]
    have hg : job.Grounded s ↔ job.scopeIds s.lineage ≠ [] := by
      simp [Grounded, hm, hl]
    have hids := h.mirrors.scopeIds_eq
    cases hchain : p.stack.chain with
    | nil =>
      rw [hchain] at hids
      simp only [noteGaps, note, ScopeStack.innermost, hchain]
      exact .of_fail fun h' => hg.mp h' hids
    | cons i is =>
      rw [hchain] at hids
      simp only [noteGaps, note, ScopeStack.innermost, hchain]
      refine ⟨hg.mpr (by simp [hids]), ?_, h.mirrors.nest hchain hl⟩
      rw [Site.lineage, frames_cons]
      simp [Ancestry.modifyTop, h.ancestry, frameOf, Site.frame, hk, hl]

/-- What the kind of a node asks for is what its site says. -/
theorem handle_serves (h : job.Reached n s opened tables p) :
    job.Serves n s opened tables (p.handle job s.node) := by
  unfold handle
  split
  · next hk => exact enterIdentifier_serves h hk
  · next hk => exact enterMemberAccess_serves h hk
  · next hk => exact enterObjectLiteral_serves h hk
  · next hk => exact enterMethod_serves h hk
  · next h₁ h₂ h₃ h₄ =>
    have hm : job.mention? s = none := by
      unfold mention?
      split
      · next hk => exact absurd hk h₂
      · next hk => exact absurd hk h₄
      · next hk => exact absurd hk h₁
      · rfl
    exact serves_of_none (h.ancestry_eq h₂ h₃) h.mirrors (literalName?_of_kind_ne job h₃) hm

/-- **Entering a named node** records what its site mentions and opens its scope, just
when the site finds the scopes it needs. -/
theorem enter_settles {t : Tree} {above : List Tree} (hn : t.label.named = true)
    (hid : t.label.id = n) (h : job.Follows n above opened tables p) :
    Settles job (job.Grounded ⟨t, above⟩)
      (job.Follows (n + 1) (t :: above) (opened ++ job.scopeSites [⟨t, above⟩])
        ((job.mentions [⟨t, above⟩]).foldl Mention.place tables))
      (p.enter job t) := by
  have houter : t.label.id ∉ job.scopeIds above := by
    intro hm
    have := h.mirrors.scopeIds_lt hm
    omega
  unfold enter
  simp only [hn, if_true]
  apply handle_serves (s := ⟨t, above⟩)
  cases ho : job.opens t.label with
  | true =>
    have hs : job.scopeSites [⟨t, above⟩] = [⟨t, above⟩] := by simp [scopeSites, ho]
    rw [hs]
    refine ⟨?_, h.mirrors.push ho hid, houter⟩
    rw [if_pos rfl, openScope, note, Ancestry.push, h.ancestry]
    rfl
  | false =>
    have hs : job.scopeSites [⟨t, above⟩] = [] := by simp [scopeSites, ho]
    rw [hs, List.append_nil]
    refine ⟨?_, (h.mirrors.pass ho).mono (Nat.le_succ n), houter⟩
    rw [if_neg Bool.false_ne_true, Ancestry.push, h.ancestry]
    rfl

/-! ### Leaving a node -/

/-- Leaving an object literal with a name takes the name off the context it was added
to. -/
theorem dropContext_eq_ok {t : Tree} {above : List Tree} {name : String}
    (h : job.Mirrors n (t :: above) (t :: above) opened tables p.stack)
    (hl : job.literalName? ⟨t, above⟩ = some name) (hne : job.scopeIds (t :: above) ≠ []) :
    ∃ q, p.dropContext job = .ok q ∧ q.ancestry = p.ancestry ∧
      job.Mirrors n (t :: above) above opened tables q.stack := by
  cases hchain : p.stack.chain with
  | nil =>
    rw [h.scopeIds_eq, hchain] at hne
    exact absurd rfl hne
  | cons i is =>
    obtain ⟨hctx, hm⟩ := h.unnest hchain hl
    refine ⟨{ p with stack := p.stack.modify i fun c => { c with context := c.context.dropLast } },
      ?_, rfl, hm⟩
    unfold dropContext
    rw [ScopeStack.innermost, hchain]
    simp only [check, bind, Except.bind, hctx, Bool.false_eq_true, if_false]
    rfl

/-- **Leaving a named node** that closes the scope it has opened undoes what entering it
has done to the frames, to the contexts and to the open scopes. -/
theorem leave_settles {t : Tree} {above : List Tree} (hn : t.label.named = true)
    (hclose : job.closes t.label = job.opens t.label) (hg : job.Grounded ⟨t, above⟩)
    (h : job.Follows n (t :: above) opened tables p) :
    Settles job True (job.Follows n above opened tables) (p.leave job t) := by
  rw [leave_of_cons hn h.ancestry]
  generalize hp : ({ p with ancestry := ⟨job.frames above⟩ } : Pass) = p'
  have ha : p'.ancestry = ⟨job.frames above⟩ := by rw [← hp]
  have hm : job.Mirrors n (t :: above) (t :: above) opened tables p'.stack := by
    rw [← hp]
    exact h.mirrors
  -- first the context
  obtain ⟨q, hq, haq, hmq⟩ : ∃ q,
      (if (job.frameOf ⟨t, above⟩).pushed then p'.dropContext job else .ok p') = .ok q ∧
        q.ancestry = p'.ancestry ∧ job.Mirrors n (t :: above) above opened tables q.stack := by
    cases hl : job.literalName? ⟨t, above⟩ with
    | none =>
      refine ⟨p', by simp [frameOf, hl], rfl, ?_⟩
      exact hm.congr_above fun k => (contextOf_cons_of_none job hl (some k)).symm
    | some name =>
      have hne : job.scopeIds (t :: above) ≠ [] := hg.2 (by simp [hl])
      obtain ⟨q, hq, hrest⟩ := dropContext_eq_ok hm hl hne
      exact ⟨q, by simp [frameOf, hl, hq], hrest⟩
  rw [hq, hclose]
  -- then the scope
  cases ho : job.opens t.label with
  | true =>
    obtain ⟨⟨c, hc⟩, hm⟩ := hmq.drop ho
    simp only [bind, Except.bind, if_true, closeScope, checkRun, hc]
    exact ⟨trivial, haq.trans ha, hm⟩
  | false => exact ⟨trivial, haq.trans ha, hmq.unpass ho⟩

/-! ### Walking over a row -/

theorem scopeSites_append (ss ts : List Site) :
    job.scopeSites (ss ++ ts) = job.scopeSites ss ++ job.scopeSites ts := by
  simp [scopeSites]

theorem mentions_append (ss ts : List Site) :
    job.mentions (ss ++ ts) = job.mentions ss ++ job.mentions ts := by
  simp [mentions]

/-- **A walk over a row** whose nodes close the scopes they open adds what the sites of
the row say, and breaks off just when one of them does not find the scopes it needs. -/
theorem across_settles (f : Forest) :
    ∀ (n : Nat) (above : List Tree) (opened : List Site) (tables : Nat → SymbolTable) (p : Pass),
      f.NumberedFrom n → (∀ l ∈ f.preorder, l.named = true → job.closes l = job.opens l) →
      job.Follows n above opened tables p →
      Settles job (∀ s ∈ f.sites above, job.Grounded s)
        (job.Follows (n + f.size) above (opened ++ job.scopeSites (f.sites above))
          ((job.mentions (f.sites above)).foldl Mention.place tables))
        (across job f p) := by
  induction f with
  | nil =>
    intro n above opened tables p _ _ h
    refine ⟨by simp [Forest.sites], ?_⟩
    simpa [Forest.sites, scopeSites, mentions, Forest.size] using h
  | cons l kids rest ihk ihr =>
    intro n above opened tables p hnum hclose h
    obtain ⟨hid, hnumk, hnumr⟩ := hnum
    have hclosek : ∀ l ∈ kids.preorder, l.named = true → job.closes l = job.opens l :=
      fun l' hl' => hclose l' (by simp [Forest.preorder, hl'])
    have hcloser : ∀ l ∈ rest.preorder, l.named = true → job.closes l = job.opens l :=
      fun l' hl' => hclose l' (by simp [Forest.preorder, hl'])
    have hsize : n + (Forest.cons l kids rest).size = n + 1 + kids.size + rest.size := by
      simp only [Forest.size]
      omega
    rw [across_cons, hsize]
    cases hn : l.named with
    | true =>
      have hsites : (Forest.cons l kids rest).sites above =
          [⟨⟨l, kids⟩, above⟩] ++ kids.sites (⟨l, kids⟩ :: above) ++ rest.sites above :=
        Forest.sites_cons_of_named hn kids rest above
      rw [hsites, scopeSites_append, scopeSites_append, mentions_append, mentions_append,
        List.foldl_append, List.foldl_append, ← List.append_assoc opened,
        ← List.append_assoc opened]
      have hwalk := (enter_settles (t := ⟨l, kids⟩) hn hid h).bind fun p₁ hg h₁ =>
        (ihk (n + 1) _ _ _ p₁ hnumk hclosek h₁).bind fun p₂ _ h₂ =>
          (leave_settles hn (hclose l (by simp [Forest.preorder]) hn) hg h₂).bind fun p₃ _ h₃ =>
            ihr _ above _ _ p₃ hnumr hcloser h₃
      refine hwalk.imp ?_ fun _ => id
      simp only [List.mem_append, List.mem_singleton, or_imp, forall_and, forall_eq, true_and,
        and_assoc]
    | false =>
      have henter : ∀ q : Pass, q.enter job ⟨l, kids⟩ = .ok q := fun q => by simp [enter, hn]
      have hleave : ∀ q : Pass, q.leave job ⟨l, kids⟩ = .ok q := fun q => by simp [leave, hn]
      have hskip : job.Follows (n + 1) above opened tables p :=
        ⟨h.ancestry, h.mirrors.mono (Nat.le_succ n)⟩
      rw [Forest.sites_cons_of_anonymous hn, scopeSites_append, mentions_append, List.foldl_append,
        ← List.append_assoc opened, henter]
      have hwalk := (ihk (n + 1) above _ _ p hnumk hclosek hskip).bind fun p₂ _ h₂ =>
        ihr _ above _ _ p₂ hnumr hcloser h₂
      simp only [hleave]
      refine Settles.imp hwalk ?_ fun _ => id
      simp only [List.mem_append, or_imp, forall_and]

/-! ### Walking over a tree -/

/-- **A walk over a tree** whose nodes close the scopes they open gives the scopes that
the sites say, and breaks off just when one of them does not find the scopes it needs.
-/
theorem run_settles (tree : Tree)
    (hclose : ∀ l ∈ tree.numbered.toForest.preorder, l.named = true → job.closes l = job.opens l) :
    Settles job (∀ s ∈ tree.numbered.sites, job.Grounded s) (fun p => p.scopes = job.reading tree)
      (run job tree) := by
  have hstart : job.Follows 1 [] [] (fun _ => {}) {} := ⟨rfl, .empty 1⟩
  have hwalk :=
    across_settles tree.numbered.toForest 1 [] [] _ {} tree.numberedFrom_numbered hclose hstart
  -- the lineage of the row that holds the root alone is empty, and so no scope is open behind it
  have hend : ∀ p, job.Follows (1 + tree.numbered.toForest.size) []
      ([] ++ job.scopeSites tree.numbered.sites) (job.tables tree.numbered.sites) p →
      Settles job True (fun p => p.scopes = job.reading tree)
        (if p.stack.depth = 0 then .ok p
          else p.fail (.ofCause job.path (.scope (.leftOpen p.stack.depth)))) := by
    intro p h
    have hdepth : p.stack.depth = 0 := h.mirrors.depth_eq
    rw [if_pos hdepth]
    refine ⟨trivial, ?_⟩
    change p.stack.scopes.map Scope.freeze = job.reading tree
    rw [h.mirrors.scopes, List.nil_append, List.map_map]
    rfl
  rw [run, walk_eq]
  exact (hwalk.bind fun p _ h => hend p h).imp (and_iff_left trivial) fun _ => id

end Job

/-- A node closes a scope just when it opens one, if the same types open and close
scopes. -/
theorem Boundary.closes_ofTypes (types : List String) (l : Label) :
    (Boundary.ofTypes types).closes l = (Boundary.ofTypes types).opens l := rfl

/-- **The scopes of a tree are those that its sites say.** -/
theorem Document.indexTree_eq_reading (source : Source) (tree : Tree) (path marker : String)
    (tolerant : Bool) (types : List String) (scopes : List IndexedScope)
    (h : (Document.indexTree source tree path ⟨tolerant, marker, .ofTypes types⟩).result =
      .ok scopes) :
    scopes = (Job.ofRules source path ⟨tolerant, marker, .ofTypes types⟩).reading tree := by
  have hsettles := @Job.run_settles (.ofRules source path ⟨tolerant, marker, .ofTypes types⟩) tree
    fun l _ _ => Boundary.closes_ofTypes types l
  unfold Document.indexTree Job.indexTree at h
  split at h
  · next p hp =>
    rw [hp] at hsettles
    cases h
    exact hsettles.2
  · cases h

/-! ### A literal with two methods -/

namespace Sample

/-- A literal whose first method names a property of it. -/
def source : Source := .ofText "var o=\x7bf()\x7bo['f']\x7d,'g'()\x7b\x7d\x7d;"

/-- The tree of the source, most of its punctuation left out. -/
def tree : Tree :=
  let access : Forest :=
    .cons { type := "identifier", span := ⟨11, 12⟩, field := some "object" } .nil <|
    .cons { type := "string", span := ⟨13, 16⟩, field := some "index" } .nil .nil
  let first : Forest :=
    .cons { type := "property_identifier", span := ⟨7, 8⟩, field := some "name" } .nil <|
    .cons { type := "subscript_expression", span := ⟨11, 17⟩ } access .nil
  let second : Forest :=
    .cons { type := "string", span := ⟨19, 22⟩, field := some "name" } .nil .nil
  let methods : Forest :=
    .cons { type := "method_definition", span := ⟨7, 18⟩ } first <|
    .cons { type := "method_definition", span := ⟨19, 26⟩ } second .nil
  let binding : Forest :=
    .cons { type := "identifier", span := ⟨4, 5⟩, field := some "name" } .nil <|
    .cons { type := "=", span := ⟨5, 6⟩, named := false } .nil <|
    .cons { type := "object", span := ⟨6, 27⟩, field := some "value" } methods .nil
  ⟨{ type := "program", span := ⟨0, 28⟩ },
    .cons { type := "variable_declarator", span := ⟨4, 27⟩ } binding .nil⟩

/-- The program and the methods are scopes. -/
def types : List String := ["program", "method_definition"]

/-- The index of the source. -/
def scopes : List IndexedScope :=
  [{ type := "program", span := ⟨0, 28⟩, depth := 0
     symbols :=
      [("o", [⟨⟨4, 5⟩, true⟩, ⟨⟨11, 12⟩, false⟩]),
        ("o.f", [⟨⟨7, 8⟩, true⟩, ⟨⟨13, 16⟩, false⟩]),
        ("o.g", [⟨⟨19, 22⟩, true⟩])] },
    { type := "method_definition", span := ⟨7, 18⟩, depth := 1, symbols := [] },
    { type := "method_definition", span := ⟨19, 26⟩, depth := 1, symbols := [] }]

theorem indexTree_eq :
    (Document.indexTree source tree "o.js" ⟨false, "?", .ofTypes types⟩).result = .ok scopes := by
  rw [Document.indexTree, Job.indexTree, Pass.run, Pass.walk_eq]
  decide +kernel

end Sample

theorem Document.indexTree_eq_reading_sample :
    (Document.indexTree Sample.source Sample.tree "o.js"
        ⟨false, "?", .ofTypes Sample.types⟩).result = .ok Sample.scopes ∧
      Sample.scopes =
        (Job.ofRules Sample.source "o.js" ⟨false, "?", .ofTypes Sample.types⟩).reading
          Sample.tree :=
  ⟨Sample.indexTree_eq,
    Document.indexTree_eq_reading Sample.source Sample.tree "o.js" "?" false Sample.types
      Sample.scopes Sample.indexTree_eq⟩

end ScopeIndex
