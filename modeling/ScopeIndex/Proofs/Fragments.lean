import Mathlib
import ScopeIndex.Proofs.Chains
import ScopeIndex.Proofs.Outline
import ScopeIndex.Proofs.Separators

/-!
# Fragments of a path

A path is a dotted text, and the names that it was put together from may hold dots of their own.
Where they do not, cutting the path at its dots gives the names back, so a path says what it was
put together from.

For the path of a member chain this is so without exception.  For a name nested in a context
there is one: a context that consists of one empty name is lost, and what stands in it cannot be
told from what stands outside.

## Main definitions

* `Name.fragments` — the names along a member chain, from left to right.
* `Name.Dotless` — no name in a tree holds a dot.
* `SymbolPath.felt` — a context as far as it shows in a path.

## Main results

* `Name.pieces_path_resolve?` — the pieces of the path of a chain, dots or not.
* `Name.resolve?_faithful` — **the path of a chain tells its fragments.**
* `SymbolPath.pieces_join` — the pieces of a nested name.
* `Job.mentions_tell_contexts` — **when the path of a mention tells its context.**
-/

namespace ScopeIndex

/-! ### Member chains -/

theorem Forest.preorder_sublist_of_child? {field : String} {f : Forest} {t : Tree}
    (h : f.child? field = some t) : t.toForest.preorder.Sublist f.preorder := by
  induction f with
  | nil => cases h
  | cons l kids rest _ ih =>
    rw [child?] at h
    split at h
    · cases h
      simp [Tree.toForest, preorder]
    · exact (ih h).trans (List.sublist_append_right _ _)

theorem Tree.preorder_sublist_of_child? {field : String} {t u : Tree}
    (h : t.child? field = some u) : u.toForest.preorder.Sublist t.children.preorder :=
  Forest.preorder_sublist_of_child? h

/-- The number of nodes of a tree that may be missing. -/
def Tree.size? (t : Option Tree) : Nat := t.elim 0 (·.toForest.size)

theorem Tree.size?_child? (t : Tree) (field : String) :
    Tree.size? (t.child? field) < Tree.size? (some t) := by
  have hsize : Tree.size? (some t) = 1 + t.children.size := rfl
  cases h : t.child? field with
  | none => rw [hsize, Nat.add_comm]; exact Nat.succ_pos _
  | some u =>
    have hle := (preorder_sublist_of_child? h).length_le
    rw [Forest.length_preorder, Forest.length_preorder] at hle
    rw [hsize, Nat.add_comm]
    exact Nat.lt_succ_of_le hle

/-- Is the tree an access with a subscript that is no constant? -/
def Tree.isComputed (t : Tree) : Bool :=
  t.label.isSubscript && t.property?.any fun p => p.label.kind ≠ .literal

namespace Name

variable (source : Source) (marker : String)

/-- The names along a member chain, from left to right. -/
def fragments : Option Tree → List String
  | none => [marker]
  | some t =>
      match t.label.kind with
      | .identifier => [source.textOf t.label]
      | .literal => [literalValue source t.label]
      | .memberAccess =>
          fragments (t.child? "object") ++
            if t.isComputed then [marker] else fragments t.property?
      | _ => [marker]
termination_by t => Tree.size? t
decreasing_by
  · exact t.size?_child? "object"
  · exact t.size?_child? t.label.propertyField

/-- No dot stands in the marker, in an identifier or in the value of a literal. -/
structure Dotless (t : Option Tree) : Prop where
  marker : '.' ∉ marker.toList
  identifier : ∀ u ∈ t, ∀ l ∈ u.toForest.preorder, l.kind = .identifier →
    '.' ∉ (source.textOf l).toList
  literal : ∀ u ∈ t, ∀ l ∈ u.toForest.preorder, l.kind = .literal →
    '.' ∉ (literalValue source l).toList

variable {source marker}

/-- The path of a member access. -/
theorem path_resolve_memberAccess {t : Tree} (hk : t.label.kind = .memberAccess) :
    (resolve source marker t).path = (resolve? source marker (t.child? "object")).path ++ "." ++
      if t.isComputed then marker else (resolve? source marker t.property?).path := by
  have hobject : (ofField source marker "object" t.children).getD (missing marker) =
      resolve? source marker (t.child? "object") := by
    rw [ofField_eq_map]
    rfl
  have hproperty : ofField source marker t.label.propertyField t.children =
      t.property?.map (resolve source marker) := ofField_eq_map _ _
  rw [resolve, ofParts, hk]
  simp only [hobject, hproperty]
  cases hp : t.property? with
  | none => simp [Tree.isComputed, hp, resolve?, dot]
  | some p =>
    by_cases hc : t.label.isSubscript = true ∧ p.label.kind ≠ .literal
    · simp [Tree.isComputed, hp, hc, dot, gap]
    · have hnot : t.isComputed = false := by simpa [Tree.isComputed, hp] using hc
      simp [hnot, hc, resolve?, dot]

/-- **The pieces of the path of a chain** are those of its fragments. -/
theorem pieces_path_resolve? (t : Option Tree) :
    Separated.pieces '.' (resolve? source marker t).path =
      (fragments source marker t).flatMap (Separated.pieces '.') := by
  fun_induction fragments source marker t with
  | case1 => simp [resolve?, missing]
  | case2 t hk => simp [resolve?, resolve, ofParts, hk]
  | case3 t hk => simp [resolve?, resolve, ofParts, hk]
  | case4 t hk ihobject ihproperty =>
    rw [resolve?, Option.map_some, Option.getD_some, path_resolve_memberAccess hk,
      Separated.pieces_dot, ihobject, List.flatMap_append]
    split
    · simp
    · rw [ihproperty]
  | case5 t hident hliteral haccess =>
    have hpath : (resolve source marker t).path = marker := by
      unfold resolve ofParts
      split
      · exact absurd ‹_› hident
      · exact absurd ‹_› hliteral
      · exact absurd ‹_› haccess
      · rfl
    simp [resolve?, hpath]

/-- What holds no dot has no part with a dot. -/
theorem Dotless.child? {t : Tree} (h : Dotless source marker (some t)) (field : String) :
    Dotless source marker (t.child? field) := by
  have hsub : ∀ u ∈ t.child? field, ∀ l ∈ u.toForest.preorder, l ∈ t.toForest.preorder := by
    intro u hu l hl
    have hmem := (Tree.preorder_sublist_of_child? hu).subset hl
    simp [Tree.toForest, Forest.preorder, hmem]
  exact ⟨h.marker, fun u hu l hl => h.identifier t rfl l (hsub u hu l hl),
    fun u hu l hl => h.literal t rfl l (hsub u hu l hl)⟩

/-- The fragments of a chain hold no dot if nothing in it does. -/
theorem Dotless.not_mem {t : Option Tree} (h : Dotless source marker t) :
    ∀ f ∈ fragments source marker t, '.' ∉ f.toList := by
  have hroot : ∀ t : Tree, t.label ∈ t.toForest.preorder := fun t => List.mem_cons_self
  fun_induction fragments source marker t with
  | case1 => simpa using h.marker
  | case2 t hk => simpa using h.identifier t rfl _ (hroot t) hk
  | case3 t hk => simpa using h.literal t rfl _ (hroot t) hk
  | case4 t hk ihobject ihproperty =>
    intro f hf
    rcases List.mem_append.mp hf with hf | hf
    · exact ihobject (h.child? _) f hf
    · split at hf
      · rw [List.mem_singleton.mp hf]
        exact h.marker
      · exact ihproperty (h.child? _) f hf
  | case5 => simpa using h.marker

theorem Dotless.pieces_path {t : Option Tree} (h : Dotless source marker t) :
    Separated.pieces '.' (resolve? source marker t).path = fragments source marker t := by
  rw [pieces_path_resolve?, Separated.flatMap_pieces h.not_mem]

/-- **The path of a chain tells its fragments.**  If no name in it holds a dot, cutting the path
at its dots gives the fragments, so chains of any two sources have the same path just when they
have the same fragments. -/
theorem resolve?_faithful (source source' : Source) (marker marker' : String) (t t' : Option Tree)
    (h : Dotless source marker t) (h' : Dotless source' marker' t') :
    Separated.pieces '.' (resolve? source marker t).path = fragments source marker t ∧
      ((resolve? source marker t).path = (resolve? source' marker' t').path ↔
        fragments source marker t = fragments source' marker' t') := by
  refine ⟨h.pieces_path, ?_⟩
  rw [← h.pieces_path, ← h'.pieces_path, Separated.pieces_inj '.']

end Name

/-! ### Two chains with one path -/

namespace Sample

/-- A call, a constant key and a computed one. -/
def computedSource : Source := .ofText "f()['k'][i]"

/-- The chain of these. -/
def computedChain : Tree :=
  let inner : Forest :=
    .cons { type := "call_expression", span := ⟨0, 3⟩, field := some "object" }
      (.cons { type := "identifier", span := ⟨0, 1⟩, field := some "function" } .nil .nil) <|
    .cons { type := "string", span := ⟨4, 7⟩, field := some "index" } .nil .nil
  ⟨{ type := "subscript_expression", span := ⟨0, 11⟩ },
    .cons { type := "subscript_expression", span := ⟨0, 8⟩, field := some "object" } inner <|
    .cons { type := "identifier", span := ⟨9, 10⟩, field := some "index" } .nil .nil⟩

/-- Dotted names, the last of them missing. -/
def dottedSource : Source := .ofText "this.k."

/-- The chain of these. -/
def dottedChain : Tree :=
  let inner : Forest :=
    .cons { type := "this", span := ⟨0, 4⟩, field := some "object" } .nil <|
    .cons { type := "property_identifier", span := ⟨5, 6⟩, field := some "property" } .nil .nil
  ⟨{ type := "member_expression", span := ⟨0, 7⟩ },
    .cons { type := "member_expression", span := ⟨0, 6⟩, field := some "object" } inner .nil⟩

theorem dotless_computed : Name.Dotless computedSource "?" (some computedChain) := by
  refine ⟨by decide, ?_, ?_⟩ <;> rintro _ ⟨rfl⟩ <;> decide +kernel

theorem dotless_dotted : Name.Dotless dottedSource "?" (some dottedChain) := by
  refine ⟨by decide, ?_, ?_⟩ <;> rintro _ ⟨rfl⟩ <;> decide +kernel

end Sample

theorem Name.resolve?_faithful_samples :
    Dotless Sample.computedSource "?" (some Sample.computedChain) ∧
      Dotless Sample.dottedSource "?" (some Sample.dottedChain) ∧
      (resolve? Sample.computedSource "?" (some Sample.computedChain)).path = "?.k.?" ∧
      Separated.pieces '.' (resolve? Sample.computedSource "?" (some Sample.computedChain)).path =
        fragments Sample.computedSource "?" (some Sample.computedChain) ∧
      fragments Sample.computedSource "?" (some Sample.computedChain) =
        fragments Sample.dottedSource "?" (some Sample.dottedChain) := by
  have hfaithful := resolve?_faithful Sample.computedSource Sample.dottedSource "?" "?"
    (some Sample.computedChain) (some Sample.dottedChain) Sample.dotless_computed
    Sample.dotless_dotted
  exact ⟨Sample.dotless_computed, Sample.dotless_dotted, by decide +kernel, hfaithful.1,
    hfaithful.2.mp (by decide +kernel)⟩

/-! ### Nested names -/

namespace SymbolPath

open Separated

/-- A context as far as it shows in a path: one empty name does not. -/
def felt (context : List String) : List String := if context = [""] then [] else context

/-- **The pieces of a nested name** are those of the names around it that show, and its own. -/
theorem pieces_join (context : List String) (name : String) :
    pieces '.' (join context name) = (felt context).flatMap (pieces '.') ++ pieces '.' name := by
  by_cases hempty : (ofPieces '.' context).isEmpty = true
  · have hfelt : felt context = [] := by
      rcases isEmpty_ofPieces_iff.mp hempty with rfl | rfl <;> rfl
    rw [hfelt, join]
    simp [hempty]
  · have hshows : context ≠ [] ∧ context ≠ [""] := by
      rwa [isEmpty_ofPieces_iff, not_or] at hempty
    rw [felt, if_neg hshows.2, join]
    simp only [hempty, Bool.false_eq_true, if_false]
    rw [pieces_dot, pieces_ofPieces '.' hshows.1]

theorem mem_of_mem_felt {context : List String} {n : String} (h : n ∈ felt context) :
    n ∈ context := by
  unfold felt at h
  split at h
  · cases h
  · exact h

theorem pieces_join_of_dotless {context : List String} {name : String}
    (h : ∀ n ∈ name :: context, '.' ∉ n.toList) :
    pieces '.' (join context name) = felt context ++ [name] := by
  rw [List.forall_mem_cons] at h
  rw [pieces_join, pieces_of_not_mem h.1, flatMap_pieces fun n hn => h.2 n (mem_of_mem_felt hn)]

theorem felt_eq_self_iff {context : List String} : felt context = context ↔ context ≠ [""] := by
  unfold felt
  split
  · next h => simp [h]
  · next h => simp [h]

/-- Contexts that show alike are the same, or neither of them shows. -/
theorem felt_inj {context context' : List String} : felt context = felt context' ↔
    context = context' ∨ context ∈ [[], [""]] ∧ context' ∈ [[], [""]] := by
  unfold felt
  split <;> split <;> simp_all [eq_comm]

end SymbolPath

namespace Job

/-- The context of what a site records. -/
def contextAt (job : Job) (s : Site) (y : Saying) : List String :=
  job.contextOf (job.mentionOf s y).scopes.head? s.lineage

/-- **When a path tells the context.**  If no name holds a dot, then cutting the path of a nested
name gives the names around it and the name, unless a single empty name is around it; and two
sites record the same path just when they record the same name in the same context, or in two
contexts of which neither shows. -/
theorem mentions_tell_contexts (job : Job) :
    (∀ (context : List String) (name : String), (∀ n ∈ name :: context, '.' ∉ n.toList) →
      (Separated.pieces '.' (SymbolPath.join context name) = context ++ [name] ↔
        context ≠ [""])) ∧
    ∀ (s s' : Site) (y y' : Saying), job.saying? s = some y →
      job.saying? s' = some y' → (∀ n ∈ y.name :: job.contextAt s y, '.' ∉ n.toList) →
      (∀ n ∈ y'.name :: job.contextAt s' y', '.' ∉ n.toList) →
      ((job.mention? s).map (·.path) = (job.mention? s').map (·.path) ↔
        y.name = y'.name ∧
          (job.contextAt s y = job.contextAt s' y' ∨
            job.contextAt s y ∈ [[], [""]] ∧ job.contextAt s' y' ∈ [[], [""]])) := by
  constructor
  · intro context name h
    rw [SymbolPath.pieces_join_of_dotless h, List.append_left_inj, SymbolPath.felt_eq_self_iff]
  · intro s s' y y' hy hy' h h'
    have hpath : ∀ {s y}, job.saying? s = some y → (job.mention? s).map (·.path) =
        some (SymbolPath.join (job.contextAt s y) y.name) := by
      intro s y hy
      rw [mention?_eq_map_saying?, hy]
      rfl
    rw [hpath hy, hpath hy', Option.some_inj, ← Separated.pieces_inj '.',
      SymbolPath.pieces_join_of_dotless h, SymbolPath.pieces_join_of_dotless h',
      ← SymbolPath.felt_inj]
    constructor
    · intro heq
      obtain ⟨hfelt, hname⟩ := List.append_inj' heq rfl
      exact ⟨List.singleton_inj.mp hname, hfelt⟩
    · rintro ⟨hname, hfelt⟩
      rw [hname, hfelt]

end Job

/-! ### A key under an empty key -/

namespace Sample

/-- A key that is nested in an empty key, and a plain name. -/
def mergedSource : Source := .ofText "f(\x7b\"\":\x7bx:1\x7d\x7d,x)"

/-- The tree of the source, its punctuation left out. -/
def mergedTree : Tree :=
  let inner : Forest :=
    .cons { type := "property_identifier", span := ⟨7, 8⟩, field := some "key" } .nil <|
    .cons { type := "number", span := ⟨9, 10⟩, field := some "value" } .nil .nil
  let outer : Forest :=
    .cons { type := "string", span := ⟨3, 5⟩, field := some "key" } .nil <|
    .cons { type := "object", span := ⟨6, 11⟩, field := some "value" }
      (.cons { type := "pair", span := ⟨7, 10⟩ } inner .nil) .nil
  let arguments : Forest :=
    .cons { type := "object", span := ⟨2, 12⟩ }
      (.cons { type := "pair", span := ⟨3, 11⟩ } outer .nil) <|
    .cons { type := "identifier", span := ⟨13, 14⟩ } .nil .nil
  ⟨{ type := "program", span := ⟨0, 15⟩ },
    .cons { type := "call_expression", span := ⟨0, 15⟩ }
      (.cons { type := "identifier", span := ⟨0, 1⟩, field := some "function" } .nil <|
        .cons { type := "arguments", span := ⟨1, 15⟩, field := some "arguments" } arguments .nil)
      .nil⟩

end Sample

/-- One empty name around a name is lost, and so a key that is nested in an empty key and a plain
name are two occurrences of one path. -/
theorem SymbolPath.join_loses_empty_name :
    Separated.pieces '.' (join [""] "x") ≠ [""] ++ ["x"] ∧ join [""] "x" = join [] "x" ∧
      (Document.indexTree Sample.mergedSource Sample.mergedTree "x.js"
          ⟨false, "?", .ofTypes ["program"]⟩).result =
        .ok [{ type := "program", span := ⟨0, 15⟩, depth := 0
               symbols := [("f", [⟨⟨0, 1⟩, true⟩]),
                ("x", [⟨⟨7, 8⟩, true⟩, ⟨⟨13, 14⟩, false⟩])] }] := by
  refine ⟨by decide +kernel, by decide +kernel, ?_⟩
  rw [Document.indexTree, Job.indexTree, Pass.run, Pass.walk_eq]
  decide +kernel

theorem Job.mentions_tell_contexts_merged :
    let job := Job.ofRules Sample.mergedSource "x.js" ⟨false, "?", .ofTypes ["program"]⟩
    let nested := Sample.mergedTree.sites.get ⟨9, by decide⟩
    let plain := Sample.mergedTree.sites.get ⟨11, by decide⟩
    let y : Saying := ⟨"x", ⟨7, 8⟩, false, false⟩
    let y' : Saying := ⟨"x", ⟨13, 14⟩, false, false⟩
    job.saying? nested = some y ∧ job.saying? plain = some y' ∧ job.contextAt nested y = [""] ∧
      job.contextAt plain y' = [] ∧
      (job.mention? nested).map (·.path) = (job.mention? plain).map (·.path) := by
  intro job nested plain y y'
  have hy : job.saying? nested = some y := by decide +kernel
  have hy' : job.saying? plain = some y' := by decide +kernel
  have hcontext : job.contextAt nested y = [""] := by decide +kernel
  have hcontext' : job.contextAt plain y' = [] := by decide +kernel
  refine ⟨hy, hy', hcontext, hcontext',
    ((mentions_tell_contexts job).2 nested plain y y' hy hy' ?_ ?_).mpr ⟨rfl, ?_⟩⟩
  · rw [hcontext]
    decide
  · rw [hcontext']
    decide
  · rw [hcontext, hcontext']
    decide

end ScopeIndex
