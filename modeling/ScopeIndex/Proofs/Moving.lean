import Mathlib
import ScopeIndex.Proofs.Nested

/-!
# An ignore file moved to its directory

An ignore file in a directory below the root is about what is below this directory.  It is compared
with the file as it is, seen from the directory.  For patterns of the usual form the two decide
alike: names between slashes, of which none stands for any number of directories.  Such a pattern
has the same segments behind the way to the directory, and these are matched alike.  A pattern
pinned to the top is pinned to the directory, and a gap at the top becomes a gap inside.

There is one exception.  A lone star is not taken for a name but for everything, and everything is
tested by looking for a character that is no line feed.  So it does not match a file whose name
consists of line feeds, except where the way to a directory stands in front.

## Main definitions

* `Pattern.Usual` — a pattern of names between slashes.
* `Pattern.Matched` — tests that decide alike about the files of a directory, seen from two places.
* `IgnoreSpec.MovedBelow` — one reading decides below a directory as another one decides.

## Main results

* `Pattern.Usual.rebase` — a pattern of the usual form keeps its segments.
* `Pattern.Shape.matched` — **its test decides below the directory what it decided before.**
* `IgnoreFile.read_nested` — **an ignore file is moved to its directory.**
-/

namespace ScopeIndex

/-! ### Patterns of the usual form -/

namespace Piece

variable {ps : List Piece} {path : List Char}

theorem matchesStart_slash_cons (ps : List Piece) (path : List Char) :
    matchesStart (.char '/' :: ps) path = (afterSlash? path).any (matchesStart ps) := by
  cases path with
  | nil => rfl
  | cons c cs =>
    rw [matchesStart_char_cons]
    by_cases hc : c = '/'
    · subst hc
      simp [afterSlash?]
    · have hnone : afterSlash? (c :: cs) = none := by
        rw [Option.eq_none_iff_forall_ne_some]
        intro rest hrest
        rw [afterSlash?_eq_some_iff] at hrest
        exact hc (List.cons.inj hrest).1
      simp [hnone, hc]

/-- A gap inside a pattern, behind the slash that ends a directory, is a gap at the top. -/
theorem matchesStart_between (ps : List Piece) (path : List Char) :
    matchesStart (.between :: .char '/' :: ps) ('/' :: path) =
      matchesStart (.above :: ps) path := by
  have hslash : afterSlash? ('/' :: path) = some path := rfl
  rw [matchesStart_cons, matchesStart_cons, rests, rests, hslash, List.any_cons, List.any_cons,
    matchesStart_slash_cons, hslash, Option.any_some, Option.map_some, Option.getD_some,
    List.any_filterMap]
  refine congrArg (matchesStart ps path || ·) (congrArg _ (funext fun rest => ?_))
  rw [matchesStart_slash_cons]
  cases afterSlash? rest <;> rfl

/-- What is left behind the first name of a path. -/
theorem mem_nameRests_append {name rest : List Char} (hname : '/' ∉ name) :
    rest ∈ nameRests (name ++ rest) := by
  induction name with
  | nil => cases rest <;> simp [nameRests]
  | cons c name ih =>
    rw [List.mem_cons, not_or] at hname
    rw [List.cons_append, nameRests, if_neg (Ne.symm hname.1)]
    exact List.mem_cons_of_mem _ (ih hname.2)

/-- A star stands for the first name of a path, if what follows matches the rest. -/
theorem matchesStart_fill {name rest : List Char} (hne : name ≠ []) (hname : '/' ∉ name)
    (h : matchesStart ps rest = true) : matchesStart (.fill :: ps) (name ++ rest) = true := by
  obtain ⟨c, cs, rfl⟩ := List.exists_cons_of_ne_nil hne
  rw [List.mem_cons, not_or] at hname
  have hhead : headRests (· ≠ '/') (c :: cs ++ rest) = [cs ++ rest] := by
    simp [headRests, Ne.symm hname.1]
  rw [matchesStart_cons, rests, hhead, List.any_eq_true]
  exact ⟨rest, by simpa using mem_nameRests_append hname.2, h⟩

/-- A gap at the top may be nothing. -/
theorem matchesStart_above (h : matchesStart ps path = true) :
    matchesStart (.above :: ps) path = true := by
  rw [matchesStart_cons, List.any_eq_true]
  exact ⟨path, List.mem_cons_self, h⟩

end Piece

namespace Pattern

variable {s pattern path : List Char} {directory segments rest : List (List Char)}
  {restores : Bool} {ps : List Piece}

/-- The path of a file is a name and, perhaps, a path behind a slash. -/
theorem IsFilePath.exists_name (h : IsFilePath path) :
    ∃ name rest, path = name ++ rest ∧ name ≠ [] ∧ '/' ∉ name ∧
      (rest = [] ∨ ∃ cs, rest = '/' :: cs) := by
  obtain ⟨name, names, hsplit⟩ := List.exists_cons_of_ne_nil (Separated.split_ne_nil '/' path)
  have hpath := Separated.join_split '/' path
  have hslash : '/' ∉ name := Separated.not_mem_of_mem_split (hsplit ▸ List.mem_cons_self)
  have hne : name ≠ [] := by
    rintro rfl
    exact h (hsplit ▸ List.mem_cons_self)
  rw [hsplit] at hpath
  cases names with
  | nil => exact ⟨name, [], by rw [← hpath]; simp, hne, hslash, .inl rfl⟩
  | cons t names => exact ⟨name, _, hpath.symm, hne, hslash, .inr ⟨_, rfl⟩⟩

/-- Everything is what a star matches at any depth, except for files whose name has only line
feeds. -/
theorem passes_everything (h : IsFilePath path) (hfeed : ∃ c ∈ path, c ≠ '\n') :
    PathTest.everything.passes path =
      Piece.matchesStart [.above, .fill, .close] path := by
  obtain ⟨name, rest, rfl, hne, hslash, hrest⟩ := h.exists_name
  have hclose : Piece.matchesStart [.close] rest = true := by
    rcases hrest with rfl | ⟨cs, rfl⟩ <;> rfl
  obtain ⟨c, hc, hfeed⟩ := hfeed
  rw [Piece.matchesStart_above (Piece.matchesStart_fill hne hslash hclose), PathTest.passes,
    List.any_eq_true]
  exact ⟨c, hc, by simpa using hfeed⟩

/-- What is in a directory is what a star and a slash match at any depth. -/
theorem passes_nested (h : IsFilePath path) :
    PathTest.nested.passes path = Piece.matchesStart [.above, .fill, .char '/'] path := by
  obtain ⟨name, rest, rfl, hne, hslash, hrest⟩ := h.exists_name
  rw [PathTest.passes, Bool.eq_iff_iff, List.contains_iff_mem]
  constructor
  · intro hmem
    have hrest : ∃ cs, rest = '/' :: cs := by
      rcases hrest with rfl | hrest
      · exact absurd hmem (by simpa using hslash)
      · exact hrest
    obtain ⟨cs, rfl⟩ := hrest
    exact Piece.matchesStart_above (Piece.matchesStart_fill hne hslash rfl)
  · intro hm
    have hend : Piece.matchesStart ([.above, .fill] ++ (['/'].map .char ++ [])) (name ++ rest) =
        true := hm
    obtain ⟨left, hleft, hend⟩ := Piece.exists_suffix_of_append hend
    obtain ⟨cs, rfl, -⟩ := Piece.matchesStart_map_char_iff.mp hend
    exact hleft.subset List.mem_cons_self

/-- An empty piece where a pattern has a slash in front or behind. -/
def hollow (slash : Bool) : List (List Char) := if slash then [[]] else []

/-- A pattern of the usual form: names between slashes, none of which stands for any number of
directories, with or without a slash in front and one behind. -/
structure Usual (pattern : List Char) : Prop where
  /-- Such are the pieces between the slashes. -/
  split : ∃ (rooted directory : Bool) (names : List (List Char)),
    Separated.split '/' pattern = hollow rooted ++ names ++ hollow directory ∧ names ≠ [] ∧
      ∀ s ∈ names, s ≠ [] ∧ s ≠ anyDepth

/-- The segments of a pattern of the usual form. -/
inductive Shape (pattern : List Char) : Prop
  /-- The pattern is pinned to the top. -/
  | pinned {s : List Char} {rest : List (List Char)} : s ≠ anyDepth →
      Pattern.segments pattern = s :: rest → Shape pattern
  /-- It is a name that is looked for at any depth. -/
  | name : pattern ≠ anyDepth → Pattern.segments pattern = [anyDepth, pattern] → Shape pattern
  /-- It is the name of a directory that is looked for at any depth. -/
  | directory {s : List Char} : s ≠ anyDepth →
      Pattern.segments pattern = [anyDepth, s, anyDepth] → Shape pattern

theorem split_slashes (hs : '/' ∉ s) (k : Nat) :
    Separated.split '/' (s ++ List.replicate k '/') = s :: List.replicate k [] := by
  have hslashes : Separated.split '/' (List.replicate k '/') = List.replicate (k + 1) [] := by
    induction k with
    | zero => rfl
    | succ k ih => rw [List.replicate_succ, Separated.split_cons_sep, ih, ← List.replicate_succ]
  cases k with
  | zero => simpa using Separated.split_of_not_mem hs
  | succ k =>
    have hrest : Separated.split '/' (List.replicate k '/') = List.replicate (k + 1) [] := by
      rw [List.replicate_succ, Separated.split_cons_sep] at hslashes
      exact (List.cons.inj hslashes).2
    rw [List.replicate_succ, Separated.split_append_sep hs, hrest]

/-- A text whose first piece is empty starts with a slash. -/
theorem exists_slash_of_split {names : List (List Char)} (hne : names ≠ [])
    (h : Separated.split '/' pattern = [] :: names) :
    ∃ rest, pattern = '/' :: rest ∧ Separated.split '/' rest = names := by
  cases pattern with
  | nil => exact absurd (List.cons.inj h).2.symm hne
  | cons c cs =>
    by_cases hc : c = '/'
    · subst hc
      rw [Separated.split_cons_sep] at h
      exact ⟨cs, rfl, (List.cons.inj h).2⟩
    · obtain ⟨p, ps, hp⟩ := List.exists_cons_of_ne_nil (Separated.split_ne_nil '/' cs)
      rw [Separated.split_cons_of_ne hc, hp, Separated.consHead] at h
      exact absurd (List.cons.inj h).1 (List.cons_ne_nil c p)

theorem head?_ne_slash {names : List (List Char)} (hs : s ≠ [])
    (h : Separated.split '/' pattern = s :: names) : pattern.head? ≠ some '/' := by
  intro hhead
  obtain ⟨cs, rfl⟩ := List.head?_eq_some_iff.mp hhead
  rw [Separated.split_cons_sep] at h
  exact hs (List.cons.inj h).1.symm

/-- A first name stays. -/
theorem exists_merged_opened_cons (hs : s ≠ []) (hdepth : s ≠ anyDepth)
    (names : List (List Char)) : ∃ rest, merged (opened (s :: names)) = s :: rest := by
  cases names with
  | nil => exact ⟨[], by rw [opened, if_neg hs, merged]⟩
  | cons t names =>
    obtain ⟨u, us, hus⟩ := List.exists_cons_of_ne_nil
      (opened_eq_nil_iff.not.mpr (List.cons_ne_nil t names))
    have hopened : opened (s :: t :: names) = s :: opened (t :: names) := rfl
    exact ⟨merged (u :: us), by rw [hopened, hus, merged, if_neg fun hgap => hdepth hgap.1]⟩

/-- A pattern that is a name, or the name of a directory, gets a gap of any depth in front. -/
theorem rebase_lone (hs : s ≠ []) (hdepth : s ≠ anyDepth) {slash : Bool}
    (hsplit : Separated.split '/' pattern = s :: hollow slash) : Shape pattern ∧
    merged (opened (Separated.split '/' (anyDepth ++ '/' :: pattern))) =
      Pattern.segments pattern := by
  have hgap : Separated.split '/' anyDepth = [anyDepth] := rfl
  obtain ⟨c, cs, rfl⟩ := List.exists_cons_of_ne_nil hs
  have hpattern := Separated.join_split '/' pattern
  rw [Separated.split_append, hgap, Pattern.segments]
  rw [hsplit] at hpattern ⊢
  cases slash with
  | false =>
    have hlone : anchored [c :: cs] = [anyDepth, c :: cs] := if_neg hdepth
    have hpattern : c :: cs = pattern := hpattern
    refine ⟨.name (hpattern ▸ hdepth) ?_, by simp [hollow, hlone]⟩
    rw [Pattern.segments, hsplit, ← hpattern]
    simp [hollow, hlone, opened, merged, hdepth]
  | true =>
    have hlone : anchored [c :: cs, []] = [anyDepth, c :: cs, []] := if_neg hdepth
    refine ⟨.directory hdepth ?_, by simp [hollow, hlone]⟩
    rw [Pattern.segments, hsplit]
    simp [hollow, hlone, opened, merged, hdepth]

/-- Without a slash inside, a pattern has one name only. -/
theorem eq_nil_of_not_hasInnerSlash {slash : Bool} {names : List (List Char)}
    (hsplit : Separated.split '/' pattern = s :: (names ++ hollow slash))
    (hnames : ∀ n ∈ names, n ≠ []) (hinner : IgnoreFile.hasInnerSlash pattern = false) :
    names = [] := by
  -- only slashes come behind the first name, and there is nothing between them
  obtain ⟨t, k, ht, rfl⟩ := IgnoreFile.hasInnerSlash_eq_false_iff.mp hinner
  rw [split_slashes ht] at hsplit
  obtain ⟨rfl, hslashes⟩ := List.cons.inj hsplit
  cases names with
  | nil => rfl
  | cons n names =>
    have hempty : n ∈ List.replicate k [] := hslashes ▸ List.mem_cons_self
    exact absurd (List.eq_of_mem_replicate hempty) (hnames n List.mem_cons_self)

/-- **A pattern of the usual form is rebased to the same segments**, behind the way to a
directory. -/
theorem Usual.rebase (h : Usual pattern) (base : List Char) : Shape pattern ∧
    ∃ rest, IgnoreFile.rebase base pattern = base ++ rest ∧ rest ≠ [] ∧
      merged (opened (Separated.split '/' rest)) = Pattern.segments pattern := by
  obtain ⟨rooted, slash, names, hsplit, hne, hnames⟩ := h.split
  obtain ⟨s, names, rfl⟩ := List.exists_cons_of_ne_nil hne
  rw [List.forall_mem_cons] at hnames
  obtain ⟨⟨hs, hdepth⟩, hnames⟩ := hnames
  obtain ⟨others, hothers⟩ := exists_merged_opened_cons hs hdepth (names ++ hollow slash)
  cases rooted with
  | true =>
    obtain ⟨rest, rfl, hrest⟩ := exists_slash_of_split (List.cons_ne_nil s _) hsplit
    have hsegments : merged (opened (Separated.split '/' rest)) =
        Pattern.segments ('/' :: rest) := by
      rw [Pattern.segments, Separated.split_cons_sep]
      rfl
    refine ⟨.pinned hdepth (hsegments ▸ hrest ▸ hothers), rest,
      IgnoreFile.rebase_cons_slash (head?_ne_slash hs hrest) base, ?_, hsegments⟩
    rintro rfl
    exact hs (List.cons.inj hrest).1.symm
  | false =>
    have hsplit : Separated.split '/' pattern = s :: (names ++ hollow slash) := hsplit
    have hhead := head?_ne_slash hs hsplit
    cases hinner : IgnoreFile.hasInnerSlash pattern with
    | true =>
      obtain ⟨t, rest, hrest, ht, hne, hopen⟩ :=
        IgnoreFile.exists_split_of_hasInnerSlash hinner hhead
      have hsegments : merged (opened (Separated.split '/' pattern)) =
          Pattern.segments pattern := by
        rw [Pattern.segments, hrest, anchored_cons ht hne hopen]
      refine ⟨.pinned hdepth (hsegments ▸ hsplit ▸ hothers), pattern, ?_,
        IgnoreFile.ne_nil_of_hasInnerSlash hinner, hsegments⟩
      rw [IgnoreFile.rebase, if_neg hhead, if_pos hinner]
    | false =>
      obtain rfl := eq_nil_of_not_hasInnerSlash hsplit (fun n hn => (hnames n hn).1) hinner
      obtain ⟨hshape, hsegments⟩ := rebase_lone hs hdepth hsplit
      refine ⟨hshape, _, ?_, by simp, hsegments⟩
      rw [IgnoreFile.rebase, if_neg hhead, hinner, if_neg Bool.false_ne_true, List.append_assoc]

/-! ### Tests behind the way to a directory -/

/-- The rule of a test, or of what is wrong with it. -/
def concluded (restores : Bool) : Except GlobFlaw PathTest → Except PatternFlaw IgnoreRule
  | .error .danglingEscape => .error .danglingEscape
  | .error .unclosed => .ok .void
  | .ok test => if isSound test then .ok (.active restores test) else .error .reversedRange

theorem ruleOf_eq_concluded (restores : Bool) (hne : pattern ≠ []) : ruleOf restores pattern =
    concluded restores (test (isDirectory pattern) (Pattern.segments pattern)) := by
  rw [ruleOf, if_neg (segments_eq_nil_iff.not.mpr hne)]
  rfl

/-- A name with a slash in front has one more piece. -/
theorem piecesFrom_slash (first' : Bool) (hs : s ≠ anyDepth) :
    piecesFrom first' true (s :: rest) =
      (piecesFrom first' false (s :: rest)).map (.char '/' :: ·) := by
  cases rest with
  | nil =>
    rw [piecesFrom, if_neg hs, piecesFrom, if_neg hs]
    cases namePieces s <;> rfl
  | cons t rest =>
    rw [piecesFrom, if_neg hs, piecesFrom, if_neg hs]
    cases namePieces s with
    | error flaw => rfl
    | ok name => cases piecesFrom false true (t :: rest) <;> rfl

/-- Where a pattern starts does not matter for a name. -/
theorem piecesFrom_first (first' : Bool) (hs : s ≠ anyDepth) :
    piecesFrom first' false (s :: rest) = piecesFrom false false (s :: rest) := by
  cases rest with
  | nil => rfl
  | cons t rest => rw [piecesFrom, if_neg hs, piecesFrom, if_neg hs]

/-- Two tests made of the same pieces decide alike: one about the files of a directory, seen from
there, and one about the same files, seen from where the text in front leads. -/
inductive Matched (front : List Char) (files : List Char → Prop) :
    Except GlobFlaw PathTest → Except GlobFlaw PathTest → Prop
  /-- The segments cannot be read. -/
  | error (flaw : GlobFlaw) : Matched front files (.error flaw) (.error flaw)
  /-- Both are sound, or none is. -/
  | ok {here there : PathTest} : isSound here = isSound there →
      (∀ path, IsFilePath path → files path →
        there.passes (front ++ '/' :: path) = here.passes path) →
      Matched front files (.ok here) (.ok there)

theorem Matched.mono {front : List Char} {files files' : List Char → Prop}
    {x y : Except GlobFlaw PathTest} (h : Matched front files x y)
    (hfiles : ∀ path, files' path → files path) : Matched front files' x y := by
  cases h with
  | error flaw => exact .error flaw
  | ok hsound hpasses =>
    exact .ok hsound fun path hpath hfile => hpasses path hpath (hfiles path hfile)

theorem matched_map {x : Except GlobFlaw (List Piece)} {front : List Char}
    {files : List Char → Prop} {here there : List Piece → PathTest}
    (hsound : ∀ ps, isSound (here ps) = isSound (there ps))
    (hpasses : ∀ ps, x = .ok ps → ∀ path, IsFilePath path → files path →
      (there ps).passes (front ++ '/' :: path) = (here ps).passes path) :
    Matched front files (x.map here) (x.map there) := by
  cases x with
  | error flaw => exact .error flaw
  | ok ps => exact .ok (hsound ps) (hpasses ps rfl)

/-- The pieces of the way to a directory are sound. -/
theorem isSound_front (front : List Char) (ps : List Piece) :
    isSound (.pieces (front.map .char ++ ps)) = isSound (.pieces ps) := by
  have hfront : (front.map Piece.char).all Piece.isSound = true := by simp [Piece.isSound]
  rw [isSound, isSound, List.all_append, hfront, Bool.true_and]

/-- Behind the way to a directory, anything between two slashes is anything above a name. -/
theorem passes_between (front : List Char) (ps : List Piece) (path : List Char) :
    (PathTest.pieces (front.map .char ++ .between :: .char '/' :: ps)).passes
      (front ++ '/' :: path) = Piece.matchesStart (.above :: ps) path := by
  rw [PathTest.passes, Piece.matchesStart_map_char, Piece.matchesStart_between]

/-- A name that is looked for at any depth below a directory. -/
theorem matched_floating (front : List Char) (hs : s ≠ anyDepth)
    (hrest : rest = [] ∨ rest = [anyDepth]) (slash : Bool) :
    Matched front (fun path => s = anyName ∧ rest = [] → ∃ c ∈ path, c ≠ '\n')
      (test slash (anyDepth :: s :: rest))
      (((piecesFrom false true (anyDepth :: s :: rest)).map
        (front.map .char ++ ·)).map .pieces) := by
  let x := piecesFrom false false (s :: rest)
  have hthere : ((piecesFrom false true (anyDepth :: s :: rest)).map
      (front.map .char ++ ·)).map PathTest.pieces =
      x.map fun ps => .pieces (front.map .char ++ .between :: .char '/' :: ps) := by
    rw [piecesFrom, if_pos rfl, if_neg Bool.false_ne_true, piecesFrom_slash false hs]
    simp only [x]
    cases piecesFrom false false (s :: rest) <;> rfl
  have hpieces : (piecesFrom true false (anyDepth :: s :: rest)).map PathTest.pieces =
      x.map fun ps => .pieces (.above :: ps) := by
    rw [piecesFrom, if_pos rfl, if_pos rfl]
    simp only [x]
    cases piecesFrom false false (s :: rest) <;> rfl
  rw [hthere]
  by_cases hname : s = anyName
  · subst hname
    rcases hrest with rfl | rfl
    · -- a lone star is everything
      have hx : x = .ok [.fill, .close] := rfl
      rw [hx]
      exact .ok (isSound_front front [.between, .char '/', .fill, .close]).symm
        fun path hpath hfeed =>
          (passes_between front _ path).trans (passes_everything hpath (hfeed ⟨rfl, rfl⟩)).symm
    · have hx : x = .ok [.fill, .char '/'] := rfl
      rw [hx]
      exact .ok (isSound_front front [.between, .char '/', .fill, .char '/']).symm
        fun path hpath _ => (passes_between front _ path).trans (passes_nested hpath).symm
  · rw [test_of_mem slash (List.mem_cons_of_mem _ List.mem_cons_self) hs hname, hpieces]
    exact matched_map (fun ps => (isSound_front front (.between :: .char '/' :: ps)).symm)
      fun ps _ path _ _ => passes_between front ps path

theorem Shape.segments_ne_nil (h : Shape pattern) : Pattern.segments pattern ≠ [] := by
  cases h with
  | pinned _ hsegments => simp [hsegments]
  | name _ hsegments => simp [hsegments]
  | directory _ hsegments => simp [hsegments]

theorem Shape.ne_nil (h : Shape pattern) : pattern ≠ [] := by
  rintro rfl
  exact h.segments_ne_nil rfl

/-- **The test of a pattern of the usual form, behind the way to a directory**, decides there what
the test of the pattern decides.  Only a lone star misses files that are called by line feeds. -/
theorem Shape.matched (hshape : Shape pattern) (h : Ordinary directory) (hne : directory ≠ []) :
    Matched (Separated.join '/' directory) (fun path => pattern = anyName → ∃ c ∈ path, c ≠ '\n')
      (test (isDirectory pattern) (Pattern.segments pattern))
      ((piecesFrom true false (directory ++ Pattern.segments pattern)).map .pieces) := by
  have hbelow : piecesFrom true false (directory ++ Pattern.segments pattern) =
      (piecesFrom false true (Pattern.segments pattern)).map
        ((Separated.join '/' directory).map .char ++ ·) :=
    piecesFrom_below h hne hshape.segments_ne_nil
  rw [hbelow]
  cases hshape with
  | pinned hdepth hsegments =>
    rename_i s rest
    have htest : test (isDirectory pattern) (s :: rest) =
        (piecesFrom false false (s :: rest)).map .pieces := by
      rw [test, if_neg, if_neg, if_neg, piecesFrom_first true hdepth] <;> simp [hdepth]
    have hthere : ((piecesFrom false true (s :: rest)).map
        ((Separated.join '/' directory).map .char ++ ·)).map PathTest.pieces =
        (piecesFrom false false (s :: rest)).map fun ps =>
          .pieces ((Separated.join '/' directory).map .char ++ .char '/' :: ps) := by
      rw [piecesFrom_slash false hdepth]
      cases piecesFrom false false (s :: rest) <;> rfl
    rw [hsegments, htest, hthere]
    refine matched_map (fun ps => (isSound_front _ (.char '/' :: ps)).symm) fun ps _ path _ _ => ?_
    rw [PathTest.passes, Piece.matchesStart_map_char, Piece.matchesStart_char_cons]
    simp [PathTest.passes]
  | name hdepth hsegments =>
    rw [hsegments]
    exact (matched_floating _ hdepth (.inl rfl) _).mono fun path hfeed hname => hfeed hname.1
  | directory hdepth hsegments =>
    rw [hsegments]
    exact (matched_floating _ hdepth (.inr rfl) _).mono fun path _ hname => by simp at hname

/-- A pattern of the usual form does not consist of slashes. -/
theorem Usual.exists_ne_slash (h : Usual pattern) : ∃ c ∈ pattern, c ≠ '/' := by
  obtain ⟨rooted, slash, names, hsplit, hne, hnames⟩ := h.split
  obtain ⟨s, names, rfl⟩ := List.exists_cons_of_ne_nil hne
  have hs : s ∈ Separated.split '/' pattern := by
    rw [hsplit]
    simp
  obtain ⟨c, cs, rfl⟩ := List.exists_cons_of_ne_nil (hnames s List.mem_cons_self).1
  refine ⟨c, (Separated.infix_of_mem_split hs).subset List.mem_cons_self, ?_⟩
  rintro rfl
  exact Separated.not_mem_of_mem_split hs List.mem_cons_self

end Pattern

/-! ### Readings moved below a directory -/

namespace IgnoreSpec

open SlashPath

variable {ε : Type} {directory : List String} {files files' : List String → Prop}
  {x x' y y' : Except ε IgnoreSpec}

/-- One reading is another one moved below a directory.  It decides about the files there as the
other one does, seen from the directory, and about no other files; or both fail in the same way. -/
inductive MovedBelow (directory : List String) (files : List String → Prop) :
    Except ε IgnoreSpec → Except ε IgnoreSpec → Prop
  | ok {spec spec' : IgnoreSpec} :
      (∀ place, IsPlace place → files place →
        verdict? spec (ofSteps (directory ++ place)).toList =
          verdict? spec' (ofSteps place).toList) →
      (∀ place, IsPlace place → ¬ (directory <+: place ∧ directory ≠ place) →
        verdict? spec (ofSteps place).toList = none) →
      MovedBelow directory files (.ok spec) (.ok spec')
  | error (e : ε) : MovedBelow directory files (.error e) (.error e)

theorem MovedBelow.mono (h : MovedBelow directory files x y)
    (hfiles : ∀ place, files' place → files place) : MovedBelow directory files' x y := by
  cases h with
  | error e => exact .error e
  | ok hbelow houtside =>
    exact .ok (fun place hplace hfile => hbelow place hplace (hfiles place hfile)) houtside

theorem MovedBelow.congr (hd : ∀ name ∈ directory, IsName name) (h : MovedBelow directory files x y)
    (hx : Agree x x') (hy : Agree y y') : MovedBelow directory files x' y' := by
  cases h with
  | error e =>
    cases hx
    cases hy
    exact .error e
  | ok hbelow houtside =>
    cases hx with
    | ok hx =>
      cases hy with
      | ok hy =>
        refine .ok (fun place hplace hfile => ?_) fun place hplace hout => ?_
        · rw [← hx _ (hplace.append hd).isFilePath, hbelow place hplace hfile,
            hy _ hplace.isFilePath]
        · rw [← hx _ hplace.isFilePath, houtside place hplace hout]

theorem MovedBelow.followed (h : MovedBelow directory files x y)
    (h' : MovedBelow directory files x' y') :
    MovedBelow directory files (followed x x') (followed y y') := by
  cases h with
  | error e => exact .error e
  | ok hbelow houtside =>
    cases h' with
    | error e => exact .error e
    | ok hbelow' houtside' =>
      refine .ok (fun place hplace hfile => ?_) fun place hplace hout => ?_
      · rw [verdict?_append, verdict?_append, hbelow place hplace hfile,
          hbelow' place hplace hfile]
      · rw [verdict?_append, houtside place hplace hout, houtside' place hplace hout]
        rfl

theorem MovedBelow.mapError {δ : Type} (f : ε → δ) (h : MovedBelow directory files x y) :
    MovedBelow directory files (x.mapError f) (y.mapError f) := by
  cases h with
  | error e => exact .error (f e)
  | ok hbelow houtside => exact .ok hbelow houtside

end IgnoreSpec

namespace IgnoreFile

open IgnoreSpec SlashPath

variable {root directory : List String} {line pattern : List Char} {restores : Bool}

/-- Rules of matched tests decide alike. -/
theorem verdict?_of_matched {front path : List Char} {files : List Char → Prop}
    {x y : Except GlobFlaw PathTest} (h : Pattern.Matched front files x y) {r r' : IgnoreRule}
    (hr : Pattern.concluded restores x = .ok r) (hr' : Pattern.concluded restores y = .ok r')
    (hpath : Pattern.IsFilePath path) (hfile : files path) :
    r'.verdict? (front ++ '/' :: path) = r.verdict? path := by
  cases h with
  | error flaw =>
    rw [hr] at hr'
    cases hr'
    cases flaw with
    | danglingEscape => cases hr
    | unclosed =>
      cases hr
      rfl
  | ok hsound hpasses =>
    simp only [Pattern.concluded] at hr hr'
    split at hr
    · next hhere =>
      rw [if_pos (hsound ▸ hhere)] at hr'
      cases hr
      cases hr'
      rw [IgnoreRule.verdict?, IgnoreRule.verdict?, hpasses path hpath hfile]
    · cases hr

theorem concluded_eq_error_iff {front : List Char} {files : List Char → Prop}
    {x y : Except GlobFlaw PathTest} (h : Pattern.Matched front files x y) (flaw : PatternFlaw) :
    Pattern.concluded restores x = .error flaw ↔ Pattern.concluded restores y = .error flaw := by
  cases h with
  | error e => exact Iff.rfl
  | ok hsound _ =>
    simp only [Pattern.concluded, hsound]
    split <;> simp

section Line

variable (h : Literal directory) (hcomment : (ofSteps directory).toList.head? ≠ some '#')
include h

/-- Outside of the directory a line of the usual form decides nothing. -/
theorem verdict?_outside {r : IgnoreRule} {place : List String} (hline : IsLine line)
    (husual : Pattern.Usual (Pattern.unmarked line))
    (hrule : Pattern.rule (rebaseLine (base root (root ++ directory)) line) = .ok r)
    (hplace : IsPlace place) (hout : ¬ (directory <+: place ∧ directory ≠ place)) :
    r.verdict? (ofSteps place).toList = none := by
  have hslashes : ¬ SlashesOnly line := by
    intro hslashes
    obtain ⟨c, hc, hne⟩ := husual.exists_ne_slash
    exact hne (hslashes.2 c hc)
  by_contra hverdict
  obtain ⟨rest, hrest⟩ := reaches_below h hline (fun _ => hslashes) hrule hverdict
  exact hout (strictPrefix_of_path h hplace hrest)

include hcomment

/-- The rule of a line of the usual form, and its rule behind the way to the directory, are those of
matched tests. -/
theorem exists_matched (root : List String) (hline : IsLine (mark restores ++ pattern))
    (hmark : restores = false → pattern.head? ≠ some '!') (husual : Pattern.Usual pattern) :
    ∃ here there, Pattern.rule (mark restores ++ pattern) = Pattern.concluded restores here ∧
      Pattern.rule (rebaseLine (base root (root ++ directory)) (mark restores ++ pattern)) =
        Pattern.concluded restores there ∧
      Pattern.Matched (ofSteps directory).toList
        (fun path => pattern = ['*'] → ∃ c ∈ path, c ≠ '\n') here there := by
  obtain ⟨hshape, rest, hrebase, hrest, hsegments⟩ :=
    husual.rebase (base root (root ++ directory))
  have hmatched := hshape.matched h.ordinary h.map_ne_nil
  rw [← toList_ofSteps h.isPlace.ne_nil] at hmatched
  refine ⟨_, _, ?_, ?_, hmatched⟩
  · rw [← Pattern.ruleOf_eq_concluded restores hshape.ne_nil]
    refine hline.rule_eq fun hrestores => ⟨hmark hrestores, ?_⟩
    rintro rfl
    obtain ⟨c, hc, hne⟩ := husual.exists_ne_slash
    exact hne (List.mem_singleton.mp hc)
  · have htext : rebase (base root (root ++ directory)) pattern =
        Separated.join '/' (directory.map String.toList) ++ '/' :: rest := by
      rw [hrebase, base_append root h.isPlace.ne_nil, toList_ofSteps h.isPlace.ne_nil,
        List.append_assoc, List.singleton_append]
    rw [rule_rebased h hline hmark, if_neg fun hc => hcomment hc.2, htext,
      Pattern.ruleOf_eq_concluded restores (by simp),
      Pattern.segments_below h.ordinary h.map_ne_nil (.inl hrest), hsegments,
      Pattern.test_below h.ordinary h.map_ne_nil]

/-- **A line of the usual form is moved below the directory.** -/
theorem movedBelow_lineSpec (root : List String) (hline : IsLine line)
    (husual : Pattern.Usual (Pattern.unmarked line)) :
    MovedBelow directory
      (fun place => Pattern.unmarked line = ['*'] → ∃ c ∈ (ofSteps place).toList, c ≠ '\n')
      (lineSpec (rebaseLine (base root (root ++ directory)) line)) (lineSpec line) := by
  have houtside := fun r place => @verdict?_outside root directory line h r place hline husual
  obtain ⟨restores, hmarked, hmark⟩ := exists_mark line
  generalize Pattern.unmarked line = pattern at *
  subst hmarked
  obtain ⟨here, there, hhere, hthere, hmatched⟩ :=
    exists_matched h hcomment root hline hmark husual
  rw [lineSpec, lineSpec, hthere, hhere]
  rw [hthere] at houtside
  cases hr : Pattern.concluded restores here with
  | error flaw =>
    rw [(concluded_eq_error_iff hmatched flaw).mp hr]
    exact .error flaw
  | ok r =>
    cases hr' : Pattern.concluded restores there with
    | error flaw =>
      rw [(concluded_eq_error_iff hmatched flaw).mpr hr'] at hr
      cases hr
    | ok r' =>
      refine .ok (fun place hplace hfile => ?_) fun place hplace hout => ?_
      · rw [verdict?_singleton, verdict?_singleton, (hplace.append h.isPlace.isName).normalPath,
          hplace.normalPath, toList_ofSteps_append h.isPlace.ne_nil hplace.ne_nil]
        exact verdict?_of_matched hmatched hr hr' hplace.isFilePath hfile
      · rw [verdict?_singleton, hplace.normalPath]
        exact houtside r' place hr' hplace hout

/-- Lines of the usual form are moved below the directory, one behind the other. -/
theorem movedBelow_rules (root : List String) {lines : List (List Char)}
    (hlines : ∀ line ∈ lines, IsLine line ∧ Pattern.Usual (Pattern.unmarked line)) :
    MovedBelow directory
      (fun place => (∃ line ∈ lines, Pattern.unmarked line = ['*']) →
        ∃ c ∈ (ofSteps place).toList, c ≠ '\n')
      (rules (lines.map (rebaseLine (base root (root ++ directory))))) (rules lines) := by
  induction lines with
  | nil => exact .ok (fun _ _ _ => rfl) fun _ _ _ => rfl
  | cons line lines ih =>
    rw [List.forall_mem_cons] at hlines
    have hfirst := movedBelow_lineSpec h hcomment root hlines.1.1 hlines.1.2
    refine ((hfirst.mono ?_).followed ((ih hlines.2).mono ?_)).congr h.isPlace.isName
      (agree_rules_cons _ _).symm (agree_rules_cons _ _).symm
    · exact fun place hfile hstar => hfile ⟨line, List.mem_cons_self, hstar⟩
    · rintro place hfile ⟨other, hmem, hstar⟩
      exact hfile ⟨other, List.mem_cons_of_mem line hmem, hstar⟩

end Line

/-- **An ignore file is moved to its directory.**  If the names of the directory stand for
themselves and all lines are of the usual form, then the rebased file decides about what is below
the directory as the file itself does, seen from there, and about nothing else.  A star alone on a
line makes an exception of the files there whose name consists of line feeds. -/
theorem read_nested (root : List String) (h : Literal directory)
    (hcomment : (ofSteps directory).toList.head? ≠ some '#') (text : String)
    (hlines : ∀ line ∈ lines text.toList, Pattern.Usual (Pattern.unmarked line)) :
    MovedBelow directory
      (fun place => (∃ line ∈ lines text.toList, Pattern.unmarked line = ['*']) →
        ∃ c ∈ (ofSteps place).toList, c ≠ '\n')
      (read (Utf8.encode text) (some (base root (root ++ directory))))
      (read (Utf8.encode text) none) := by
  rw [read_encode, read_encode, Option.elim_some, Option.elim_none, List.map_id]
  refine (movedBelow_rules h hcomment root fun line hline => ?_).mapError _
  exact ⟨isLine_of_mem_lines hline, hlines line hline⟩

theorem read_nested_sample :
    Literal ["packages", "lib-1.0"] ∧
    (ofSteps ["packages", "lib-1.0"]).toList.head? ≠ some '#' ∧
    (∀ line ∈ lines "*.js\n!/keep.js\nsub/[a-c]?/\n".toList,
      Pattern.Usual (Pattern.unmarked line)) ∧
    MovedBelow ["packages", "lib-1.0"]
      (fun place =>
        (∃ line ∈ lines "*.js\n!/keep.js\nsub/[a-c]?/\n".toList, Pattern.unmarked line = ['*']) →
          ∃ c ∈ (ofSteps place).toList, c ≠ '\n')
      (read (Utf8.encode "*.js\n!/keep.js\nsub/[a-c]?/\n")
        (some (base ["home"] (["home"] ++ ["packages", "lib-1.0"]))))
      (read (Utf8.encode "*.js\n!/keep.js\nsub/[a-c]?/\n") none) := by
  have hliteral : Literal ["packages", "lib-1.0"] := by
    refine ⟨⟨by decide, ?_⟩, ?_, by decide⟩ <;> simp only [List.forall_mem_cons]
    · exact ⟨⟨by decide, by decide, by decide⟩, ⟨by decide, by decide, by decide⟩, by simp⟩
    · exact ⟨List.all_eq_true.mp (by decide), List.all_eq_true.mp (by decide), by simp⟩
  have hlines : lines "*.js\n!/keep.js\nsub/[a-c]?/\n".toList =
      ["*.js".toList, "!/keep.js".toList, "sub/[a-c]?/".toList] := by decide
  have husual : ∀ line ∈ lines "*.js\n!/keep.js\nsub/[a-c]?/\n".toList,
      Pattern.Usual (Pattern.unmarked line) := by
    rw [hlines]
    simp only [List.forall_mem_cons]
    exact ⟨⟨false, false, ["*.js".toList], by decide, by decide, by decide⟩,
      ⟨true, false, ["keep.js".toList], by decide, by decide, by decide⟩,
      ⟨false, true, ["sub".toList, "[a-c]?".toList], by decide, by decide, by decide⟩, by simp⟩
  exact ⟨hliteral, by decide, husual, read_nested ["home"] hliteral (by decide) _ husual⟩

/-- A star alone misses a file whose name is a line feed, but not below a directory. -/
theorem read_nested_line_feed : ∃ spec spec',
    read (Utf8.encode "*\n") (some (base ["home"] (["home"] ++ ["lib"]))) = .ok spec ∧
    read (Utf8.encode "*\n") none = .ok spec' ∧
    (lines "*\n".toList = [['*']] ∧ Pattern.Usual ['*']) ∧ IsPlace ["\n"] ∧
    verdict? spec (ofSteps (["lib"] ++ ["\n"])).toList = some true ∧
    verdict? spec' (ofSteps ["\n"]).toList = none := by
  refine ⟨[.active false (.pieces (['l', 'i', 'b'].map .char ++
      [.between, .char '/', .fill, .close]))], [.active false .everything],
    ?_, ?_, ⟨by decide, ?_⟩, ?_, by decide, by decide⟩
  · rw [read_encode]
    rfl
  · rw [read_encode]
    rfl
  · exact ⟨false, false, [['*']], by decide, by decide, by decide⟩
  · refine ⟨by decide, ?_⟩
    simp only [List.forall_mem_cons]
    exact ⟨⟨by decide, by decide, by decide⟩, by simp⟩

end IgnoreFile
end ScopeIndex
