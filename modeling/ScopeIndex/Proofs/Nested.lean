import Mathlib
import ScopeIndex.Proofs.Pinning

/-!
# The way to a directory in a pattern

The lines of an ignore file in a directory below the root get the way to the directory in front.
Where the names on this way stand for themselves in a pattern, they are matched as they are, and
what follows needs a slash.  So a line can only decide about what is below the directory.

A line of slashes is different if the directory is right below the root.  All that is left of it is
the name of the directory and a slash, and such a pattern is looked for at every depth.

## Main definitions

* `SlashPath.IsName`, `SlashPath.IsPlace` — the names of files and the way to a file.
* `IgnoreFile.Literal` — a directory whose names stand for themselves in a pattern.
* `IgnoreFile.SlashesOnly` — a line of slashes.

## Main results

* `Pattern.segments_below`, `Pattern.piecesFrom_below` — the segments and the pieces of a pattern
  behind the way to a directory.
* `IgnoreFile.rule_rebased` — the rule of a line behind the way to a directory.
* `IgnoreFile.reaches_below` — **a line reaches nothing outside the directory.**
-/

namespace ScopeIndex

/-! ### Names and places -/

namespace SlashPath

/-- What a step to a file is called: something without a slash, other than the step that leads
nowhere. -/
structure IsName (name : String) : Prop where
  /-- A name is not empty. -/
  ne_empty : name ≠ ""
  /-- It holds no slash. -/
  slash : '/' ∉ name.toList
  /-- It leads on. -/
  ne_dot : name ≠ "."

/-- The way to a file. -/
structure IsPlace (place : List String) : Prop where
  /-- There is at least one step. -/
  ne_nil : place ≠ []
  /-- Each step has a name. -/
  isName : ∀ name ∈ place, IsName name

variable {name : String} {place : List String}

theorem IsName.toList_ne_nil (h : IsName name) : name.toList ≠ [] := by
  intro hnil
  exact h.ne_empty (String.toList_inj.mp hnil)

theorem IsPlace.append {directory : List String} (hd : ∀ name ∈ directory, IsName name)
    (h : IsPlace place) : IsPlace (directory ++ place) := by
  refine ⟨by simp [h.ne_nil], fun name hname => ?_⟩
  rcases List.mem_append.mp hname with hname | hname
  · exact hd name hname
  · exact h.isName name hname

theorem toList_ofSteps (hne : place ≠ []) :
    (ofSteps place).toList = Separated.join '/' (place.map String.toList) := by
  rw [ofSteps, if_neg hne, Separated.ofPieces, String.toList_ofList]

theorem toList_ofSteps_append {directory : List String} (hd : directory ≠ []) (hne : place ≠ []) :
    (ofSteps (directory ++ place)).toList =
      (ofSteps directory).toList ++ '/' :: (ofSteps place).toList := by
  rw [toList_ofSteps (by simp [hne]), toList_ofSteps hd, toList_ofSteps hne, List.map_append,
    Separated.join_append (by simpa using hd) (by simpa using hne)]

/-- The steps of a path come back from it. -/
theorem IsPlace.split (h : IsPlace place) :
    Separated.split '/' (ofSteps place).toList = place.map String.toList := by
  rw [toList_ofSteps h.ne_nil]
  refine Separated.split_join (by simpa using h.ne_nil) fun p hp => ?_
  obtain ⟨name, hname, rfl⟩ := List.mem_map.mp hp
  exact (h.isName name hname).slash

theorem IsPlace.isFilePath (h : IsPlace place) : Pattern.IsFilePath (ofSteps place).toList := by
  rw [Pattern.IsFilePath, h.split, List.mem_map]
  rintro ⟨name, hname, hnil⟩
  exact (h.isName name hname).toList_ne_nil hnil

theorem IsPlace.toList_ne_nil (h : IsPlace place) : (ofSteps place).toList ≠ [] := by
  intro hnil
  refine h.isFilePath ?_
  rw [hnil]
  exact List.mem_cons_self

/-- Rules see the way to a file as it is. -/
theorem IsPlace.normalPath (h : IsPlace place) :
    IgnoreSpec.normalPath (ofSteps place).toList = (ofSteps place).toList := by
  obtain ⟨name, rest, rfl⟩ := List.exists_cons_of_ne_nil h.ne_nil
  have hname := h.isName name List.mem_cons_self
  have hsplit := h.split
  refine IgnoreFile.normalPath_eq_self ?_ ?_
  · intro hslash
    exact h.isFilePath (Separated.nil_mem_split_iff.mpr (.inr (.inl hslash)))
  · rintro ⟨cs, hcs⟩
    have hdot : Separated.split '/' (['.', '/'] ++ cs) = ['.'] :: Separated.split '/' cs := rfl
    rw [← hcs, hdot, List.map_cons, List.cons.injEq] at hsplit
    exact hname.ne_dot (String.toList_inj.mp hsplit.1.symm)

end SlashPath

/-! ### The way to a directory in a pattern -/

namespace Pattern

/-- The names of a directory, each without a character that has a role in a segment. -/
def Ordinary (directory : List (List Char)) : Prop :=
  ∀ s ∈ directory, s ≠ [] ∧ '/' ∉ s ∧ ∀ c ∈ s, Glob.isOrdinary c = true

variable {directory segments : List (List Char)} {pattern path : List Char} {ps : List Piece}
  {first slash restores : Bool}

theorem Ordinary.ne_anyDepth (h : Ordinary directory) : ∀ s ∈ directory, s ≠ anyDepth :=
  fun s hs => ne_anyDepth_of_isOrdinary (h s hs).2.2

theorem split_below (h : Ordinary directory) (hne : directory ≠ []) (pattern : List Char) :
    Separated.split '/' (Separated.join '/' directory ++ '/' :: pattern) =
      directory ++ Separated.split '/' pattern := by
  rw [Separated.split_append, Separated.split_join hne fun s hs => (h s hs).2.1]

theorem opened_append (directory : List (List Char)) (hne : segments ≠ []) :
    opened (directory ++ segments) = directory ++ opened segments := by
  induction directory with
  | nil => rfl
  | cons s directory ih =>
    obtain ⟨t, rest, hrest⟩ := List.exists_cons_of_ne_nil
      (List.append_ne_nil_of_right_ne_nil directory hne)
    have hopened : opened (s :: t :: rest) = s :: opened (t :: rest) := rfl
    rw [List.cons_append, hrest, hopened, ← hrest, ih, List.cons_append]

theorem merged_append (h : ∀ s ∈ directory, s ≠ anyDepth) (hne : segments ≠ []) :
    merged (directory ++ segments) = directory ++ merged segments := by
  induction directory with
  | nil => rfl
  | cons s directory ih =>
    rw [List.forall_mem_cons] at h
    obtain ⟨t, rest, hrest⟩ := List.exists_cons_of_ne_nil
      (List.append_ne_nil_of_right_ne_nil directory hne)
    rw [List.cons_append, hrest, merged, if_neg fun hgap => h.1 hgap.1, ← hrest, ih h.2,
      List.cons_append]

/-- **The segments of a pattern behind the way to a directory.**  A slash behind a single name does
not pin it, so there must be something behind the slash, or a second name before it. -/
theorem segments_below (h : Ordinary directory) (hne : directory ≠ [])
    (hpinned : pattern ≠ [] ∨ 2 ≤ directory.length) :
    Pattern.segments (Separated.join '/' directory ++ '/' :: pattern) =
      directory ++ merged (opened (Separated.split '/' pattern)) := by
  have hanchored : anchored (directory ++ Separated.split '/' pattern) =
      directory ++ Separated.split '/' pattern := by
    obtain ⟨s, rest, rfl⟩ := List.exists_cons_of_ne_nil hne
    refine anchored_cons (h s List.mem_cons_self).1 ?_ ?_
    · exact List.append_ne_nil_of_right_ne_nil rest (Separated.split_ne_nil '/' pattern)
    · intro hopen
      rcases hpinned with hpattern | hlength
      · obtain ⟨t, ts, hsplit⟩ := List.exists_cons_of_ne_nil (Separated.split_ne_nil '/' pattern)
        cases rest with
        | nil => exact split_ne_singleton_nil hpattern hopen
        | cons r rest =>
          rw [hsplit] at hopen
          simp at hopen
      · cases rest with
        | nil => simp at hlength
        | cons r rest =>
          exact Separated.split_ne_nil '/' pattern
            (List.append_eq_nil_iff.mp (List.cons.inj hopen).2).2
  rw [Pattern.segments, split_below h hne, hanchored,
    opened_append directory (Separated.split_ne_nil '/' pattern),
    merged_append h.ne_anyDepth (opened_eq_nil_iff.not.mpr (Separated.split_ne_nil '/' pattern))]

/-- **The pieces of the way to a directory are its characters**, and what follows needs a slash. -/
theorem piecesFrom_below (h : Ordinary directory) (hne : directory ≠ [])
    (hsegments : segments ≠ []) : piecesFrom first slash (directory ++ segments) =
      (piecesFrom false true segments).map fun ps =>
        (if slash then [.char '/'] else []) ++ (Separated.join '/' directory).map .char ++ ps := by
  induction directory generalizing first slash with
  | nil => exact absurd rfl hne
  | cons s directory ih =>
    have hs := (h s List.mem_cons_self).2.2
    have hname := namePieces_of_isOrdinary hs
    obtain ⟨t, rest, hrest⟩ := List.exists_cons_of_ne_nil
      (List.append_ne_nil_of_right_ne_nil directory hsegments)
    rw [List.cons_append, hrest, piecesFrom, if_neg (ne_anyDepth_of_isOrdinary hs), hname]
    dsimp only
    rw [← hrest]
    cases directory with
    | nil =>
      rw [List.nil_append, Separated.join_singleton]
    | cons u directory =>
      rw [ih (fun s hs => h s (List.mem_cons_of_mem _ hs)) (List.cons_ne_nil u directory)]
      cases piecesFrom false true segments with
      | error flaw => rfl
      | ok ps => simp [Except.map]

/-- A pattern behind the way to a directory matches only what is below the directory. -/
theorem exists_of_matchesStart_below (h : Ordinary directory) (hne : directory ≠ [])
    (hsegments : segments ≠ []) (hps : piecesFrom true false (directory ++ segments) = .ok ps)
    (hm : Piece.matchesStart ps path = true) :
    ∃ rest, path = Separated.join '/' directory ++ '/' :: rest := by
  rw [piecesFrom_below h hne hsegments] at hps
  obtain ⟨others, hothers, rfl⟩ := exists_of_map_eq_ok hps
  obtain ⟨behind, rfl, hbehind⟩ := Piece.matchesStart_map_char_iff.mp hm
  obtain ⟨rest, rfl⟩ := List.head?_eq_some_iff.mp
    (head?_of_matchesStart hothers hsegments hbehind)
  exact ⟨rest, rfl⟩

/-- The test of a pattern behind the way to a directory is by pieces. -/
theorem test_below (h : Ordinary directory) (hne : directory ≠ []) (isDirectory : Bool) :
    test isDirectory (directory ++ segments) =
      (piecesFrom true false (directory ++ segments)).map .pieces := by
  obtain ⟨s, rest, rfl⟩ := List.exists_cons_of_ne_nil hne
  have hs := (h s List.mem_cons_self).2.2
  exact test_of_mem isDirectory (List.mem_append_left _ List.mem_cons_self)
    (ne_anyDepth_of_isOrdinary hs) (ne_anyName_of_isOrdinary hs)

end Pattern

namespace IgnoreFile

open IgnoreSpec

/-! ### Lines behind the way to a directory -/

/-- A directory whose names stand for themselves in a pattern. -/
structure Literal (directory : List String) : Prop where
  /-- The directory is below the root. -/
  isPlace : SlashPath.IsPlace directory
  /-- No character has a role in a segment. -/
  isOrdinary : ∀ name ∈ directory, ∀ c ∈ name.toList, Glob.isOrdinary c = true
  /-- Nothing is taken for the mark that restores. -/
  unmarked : (SlashPath.ofSteps directory).toList.head? ≠ some '!'

/-- A line of slashes, behind the mark or without one. -/
def SlashesOnly (line : List Char) : Prop :=
  Pattern.unmarked line ≠ [] ∧ ∀ c ∈ Pattern.unmarked line, c = '/'

variable {root directory : List String} {line pattern path : List Char} {restores : Bool}

theorem base_append (root : List String) (hne : directory ≠ []) :
    base root (root ++ directory) = (SlashPath.ofSteps directory).toList ++ ['/'] := by
  have hdrop : (root ++ directory).drop root.length = directory := List.drop_left
  rw [base, if_pos (List.prefix_append root directory), hdrop, SlashPath.ofSteps, if_neg hne,
    if_neg hne]

theorem Literal.ordinary (h : Literal directory) :
    Pattern.Ordinary (directory.map String.toList) := by
  intro s hs
  obtain ⟨name, hname, rfl⟩ := List.mem_map.mp hs
  have hlegal := h.isPlace.isName name hname
  exact ⟨hlegal.toList_ne_nil, hlegal.slash, h.isOrdinary name hname⟩

theorem Literal.map_ne_nil (h : Literal directory) : directory.map String.toList ≠ [] := by
  simpa using h.isPlace.ne_nil

/-- A pattern that is rebased has the way to the directory in front. -/
theorem exists_rebase (base pattern : List Char) : ∃ rest, rebase base pattern = base ++ rest ∧
    (rest = [] → pattern ≠ [] ∧ ∀ c ∈ pattern, c = '/') ∧
    ∀ c ∈ rest.getLast?, c = '/' ∨ c ∈ pattern.getLast? := by
  by_cases hhead : pattern.head? = some '/'
  · refine ⟨pattern.dropWhile (· = '/'), if_pos hhead, fun hnil => ⟨?_, ?_⟩, fun c hc => .inr ?_⟩
    · rintro rfl
      cases hhead
    · simpa using hnil
    · obtain ⟨slashes, hsuffix⟩ := List.dropWhile_suffix (fun c : Char => decide (c = '/'))
        (l := pattern)
      rw [← hsuffix, Option.mem_def, List.getLast?_append, hc]
      rfl
  · cases hinner : hasInnerSlash pattern with
    | true =>
      refine ⟨pattern, by rw [rebase, if_neg hhead, if_pos hinner], fun hnil => ?_,
        fun c hc => .inr hc⟩
      exact absurd hnil (ne_nil_of_hasInnerSlash hinner)
    | false =>
      refine ⟨Pattern.anyDepth ++ '/' :: pattern, ?_, fun hnil => ?_, fun c hc => ?_⟩
      · rw [rebase, if_neg hhead, hinner, if_neg Bool.false_ne_true, List.append_assoc]
      · simp at hnil
      · rw [List.getLast?_append, List.getLast?_cons] at hc
        cases hlast : pattern.getLast? with
        | none => exact .inl (by simpa [hlast, eq_comm] using hc)
        | some d => exact .inr (by simpa [hlast] using hc)

/-- A line that is rebased does not end with a blank. -/
theorem IsLine.getLast_rebased (hline : IsLine (mark restores ++ pattern)) (front : List Char) :
    ∀ c ∈ (mark restores ++ rebase (front ++ ['/']) pattern).getLast?,
      Lines.isBlank c = false := by
  obtain ⟨rest, hrebase, -, hlast⟩ := exists_rebase (front ++ ['/']) pattern
  intro c hc
  rw [hrebase, List.append_assoc, List.singleton_append, ← List.append_assoc,
    List.getLast?_append, List.getLast?_cons] at hc
  have hslash : c = '/' ∨ c ∈ pattern.getLast? := by
    cases hrest : rest.getLast? with
    | none => exact .inl (by simpa [hrest, eq_comm] using hc)
    | some d =>
      have hd := hlast d hrest
      simp only [hrest, Option.getD_some, Option.some_or, Option.mem_def, Option.some.injEq] at hc
      rwa [hc] at hd
  rcases hslash with rfl | hc
  · decide
  · refine hline.getLast c ?_
    rw [Option.mem_def] at hc ⊢
    rw [List.getLast?_append, hc]
    rfl

/-- The rule of a line behind the way to a directory, which may make it a comment. -/
theorem rule_rebased (h : Literal directory) (hline : IsLine (mark restores ++ pattern))
    (hmark : restores = false → pattern.head? ≠ some '!') :
    Pattern.rule (rebaseLine (base root (root ++ directory)) (mark restores ++ pattern)) =
      if restores = false ∧ (SlashPath.ofSteps directory).toList.head? = some '#' then .ok .void
      else Pattern.ruleOf restores (rebase (base root (root ++ directory)) pattern) := by
  have hlast := hline.getLast_rebased (SlashPath.ofSteps directory).toList
  obtain ⟨rest, hrebase, -⟩ := exists_rebase ((SlashPath.ofSteps directory).toList ++ ['/']) pattern
  obtain ⟨c, cs, hcs⟩ := List.exists_cons_of_ne_nil h.isPlace.toList_ne_nil
  have hunmarked := h.unmarked
  rw [rebaseLine_mark hmark, base_append root h.isPlace.ne_nil]
  split
  · next hcomment =>
    obtain ⟨rfl, hcomment⟩ := hcomment
    rw [Pattern.rule, trimmed_of_getLast hlast, hrebase, if_pos]
    rw [hcs] at hcomment ⊢
    exact .inr (.inl (by simpa [mark] using hcomment))
  · next hcomment =>
    refine rule_mark hlast fun hrestores => ?_
    rw [hcs] at hcomment hunmarked
    rw [hrebase, hcs]
    exact ⟨by simp, by simp, by simpa using hunmarked, by simpa [hrestores] using hcomment⟩

/-- **A line of an ignore file reaches nothing outside its directory**, if the names of the
directory stand for themselves.  Slashes alone behind a single name would not pin it. -/
theorem reaches_below {r : IgnoreRule} (h : Literal directory) (hline : IsLine line)
    (hslashes : directory.length = 1 → ¬ SlashesOnly line)
    (hrule : Pattern.rule (rebaseLine (base root (root ++ directory)) line) = .ok r)
    (hverdict : r.verdict? path ≠ none) :
    ∃ rest, path = (SlashPath.ofSteps directory).toList ++ '/' :: rest := by
  obtain ⟨restores, hmarked, hmark⟩ := exists_mark line
  rw [SlashesOnly] at hslashes
  generalize Pattern.unmarked line = pattern at *
  subst hmarked
  rw [rule_rebased h hline hmark] at hrule
  split at hrule
  · cases hrule
    exact absurd rfl hverdict
  obtain ⟨rest, hrebase, hnil, -⟩ := exists_rebase (base root (root ++ directory)) pattern
  have htext : rebase (base root (root ++ directory)) pattern =
      Separated.join '/' (directory.map String.toList) ++ '/' :: rest := by
    rw [hrebase, base_append root h.isPlace.ne_nil, SlashPath.toList_ofSteps h.isPlace.ne_nil,
      List.append_assoc, List.singleton_append]
  have hpinned : rest ≠ [] ∨ 2 ≤ (directory.map String.toList).length := by
    by_cases hrest : rest = []
    · have hlength : directory.length ≠ 1 := fun hone => hslashes hone (hnil hrest)
      have hpos := List.length_pos_of_ne_nil h.isPlace.ne_nil
      rw [List.length_map]
      exact .inr (by omega)
    · exact .inl hrest
  have hne : Pattern.merged (Pattern.opened (Separated.split '/' rest)) ≠ [] :=
    Pattern.merged_eq_nil_iff.not.mpr
      (Pattern.opened_eq_nil_iff.not.mpr (Separated.split_ne_nil '/' rest))
  have hsegments := Pattern.segments_below h.ordinary h.map_ne_nil hpinned
  rw [htext] at hrule
  obtain ⟨ps, hps, hmatches⟩ := Pattern.exists_pieces_of_verdict?
    (by rw [hsegments]; exact Pattern.test_below h.ordinary h.map_ne_nil _) hrule hverdict
  rw [hsegments] at hps
  obtain ⟨behind, hbehind⟩ :=
    Pattern.exists_of_matchesStart_below h.ordinary h.map_ne_nil hne hps hmatches
  exact ⟨behind, by rw [hbehind, SlashPath.toList_ofSteps h.isPlace.ne_nil]⟩

/-- A path that starts with the way to a directory leads below it. -/
theorem strictPrefix_of_path {place : List String} (h : Literal directory)
    (hplace : SlashPath.IsPlace place) (hpath : (SlashPath.ofSteps place).toList =
      (SlashPath.ofSteps directory).toList ++ '/' :: path) :
    directory <+: place ∧ directory ≠ place := by
  have hsplit := hplace.split
  rw [hpath, Separated.split_append, h.isPlace.split] at hsplit
  refine ⟨(List.prefix_map_iff_of_injective fun _ _ => String.toList_inj.mp).mp ⟨_, hsplit⟩, ?_⟩
  rintro rfl
  exact Separated.split_ne_nil '/' path (List.append_right_eq_self.mp hsplit)

end IgnoreFile
end ScopeIndex
