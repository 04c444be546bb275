import Mathlib
import ScopeIndex.Proofs.Nested

/-!
# Names with stars and question marks

A star or a question mark in a name matches other characters than itself, an `x` for one.  So a
pattern that spells the way to a file matches also where each star and each question mark is
replaced by an `x`.

## Main definitions

* `Glob.isFree` — characters that are read alone.
* `Glob.pieceOf`, `Glob.filledChar` — the piece of such a character, and a character that it takes.
* `SlashPath.filled` — a name without stars and question marks that it matches as a pattern.
* `IgnoreFile.Wild` — a way with a star or a question mark in it.

## Main results

* `Pattern.exists_piecesFrom_filled` — **the pieces of a pattern match the names filled in.**
* `Pattern.exists_ruleOf_filled` — so does its rule.
* `IgnoreFile.Wild.exists_rule` — a line of an ignore file matches below another directory.
-/

namespace ScopeIndex

namespace Glob

/-- Is a character read alone?  A backslash and a bracket are read with what comes behind. -/
def isFree (c : Char) : Bool := c ≠ '\\' && c ≠ '['

/-- The piece of a character that is read alone. -/
def pieceOf (c : Char) : Piece := if c = '*' then .run else if c = '?' then .one else .char c

/-- A character that is taken by the piece of a character. -/
def filledChar (c : Char) : Char := if isOrdinary c then c else 'x'

theorem pieces_of_isFree {segment : List Char} (h : ∀ c ∈ segment, isFree c = true) :
    pieces segment = .ok (segment.map pieceOf) := by
  induction segment with
  | nil => rfl
  | cons c cs ih =>
    rw [List.forall_mem_cons] at h
    have ih := ih h.2
    have hc : c ≠ '\\' ∧ c ≠ '[' := by simpa [isFree] using h.1
    rw [pieces] at ih ⊢
    rw [piecesFrom, if_neg hc.1, if_neg hc.2, ih, List.map_cons, pieceOf]
    split_ifs <;> rfl

end Glob

namespace Piece

variable {ps : List Piece} {cs : List Char}

theorem matchesStart_pieceOf {c : Char} (hfree : Glob.isFree c = true)
    (h : matchesStart ps cs = true) :
    matchesStart (Glob.pieceOf c :: ps) (Glob.filledChar c :: cs) = true := by
  rw [matchesStart_cons, List.any_eq_true]
  refine ⟨cs, ?_, h⟩
  by_cases hstar : c = '*'
  · subst hstar
    cases cs with
    | nil => decide
    | cons d cs => simp [Glob.pieceOf, Glob.filledChar, Glob.isOrdinary, rests, nameRests]
  · by_cases hone : c = '?'
    · subst hone
      exact List.mem_singleton.mpr rfl
    · have hordinary : Glob.isOrdinary c = true := by
        simp_all [Glob.isFree, Glob.isOrdinary]
      simp [Glob.pieceOf, hstar, hone, Glob.filledChar, hordinary, rests, headRests]

theorem matchesStart_map_pieceOf {s : List Char} (hfree : ∀ c ∈ s, Glob.isFree c = true)
    (h : matchesStart ps cs = true) :
    matchesStart (s.map Glob.pieceOf ++ ps) (s.map Glob.filledChar ++ cs) = true := by
  induction s with
  | nil => exact h
  | cons c s ih =>
    rw [List.forall_mem_cons] at hfree
    exact matchesStart_pieceOf hfree.1 (ih hfree.2)

end Piece

namespace Pattern

/-- Names of characters that are read alone, none of them standing for any number of
directories. -/
def Free (segments : List (List Char)) : Prop :=
  ∀ s ∈ segments, s ≠ [] ∧ '/' ∉ s ∧ s ≠ anyDepth ∧ ∀ c ∈ s, Glob.isFree c = true

variable {segments : List (List Char)} {s : List Char} {first slash restores : Bool}

/-- A name matches what it becomes when it is filled in. -/
theorem exists_namePieces_filled (hfree : ∀ c ∈ s, Glob.isFree c = true) :
    ∃ ps, namePieces s = .ok ps ∧ (∀ p ∈ ps, p.isSound = true) ∧
      ∀ qs cs, Piece.matchesStart qs cs = true →
        Piece.matchesStart (ps ++ qs) (s.map Glob.filledChar ++ cs) = true := by
  by_cases hname : s = anyName
  · subst hname
    refine ⟨[.fill], rfl, by decide, fun qs cs h => ?_⟩
    rw [List.singleton_append, Piece.matchesStart_cons, List.any_eq_true]
    refine ⟨cs, ?_, h⟩
    have hrest : cs ∈ Piece.nameRests cs := by cases cs <;> simp [Piece.nameRests]
    simpa [anyName, Glob.filledChar, Glob.isOrdinary, Piece.rests, Piece.headRests] using hrest
  · refine ⟨s.map Glob.pieceOf, ?_, fun p hp => ?_, fun qs cs =>
      Piece.matchesStart_map_pieceOf hfree⟩
    · rw [namePieces, if_neg hname, Glob.pieces_of_isFree hfree]
    · obtain ⟨c, -, rfl⟩ := List.mem_map.mp hp
      rw [Glob.pieceOf]
      split_ifs <;> rfl

/-- The pieces of a name, behind a slash or not. -/
theorem slashed_filled {ps : List Piece} {cs : List Char} (slash : Bool)
    (hsound : ∀ p ∈ ps, p.isSound = true) (hmatches : Piece.matchesStart ps cs = true) :
    (∀ p ∈ (if slash then [.char '/'] else []) ++ ps, p.isSound = true) ∧
      Piece.matchesStart ((if slash then [.char '/'] else []) ++ ps)
        ((if slash then ['/'] else []) ++ cs) = true := by
  cases slash with
  | false => exact ⟨hsound, hmatches⟩
  | true =>
    refine ⟨List.forall_mem_cons.mpr ⟨rfl, hsound⟩, ?_⟩
    exact (Piece.matchesStart_char_cons '/' '/' ps cs).trans (by rw [hmatches]; rfl)

/-- **The pieces of a pattern match the names filled in.** -/
theorem exists_piecesFrom_filled (first slash : Bool) (hne : segments ≠ []) (h : Free segments) :
    ∃ ps, piecesFrom first slash segments = .ok ps ∧ (∀ p ∈ ps, p.isSound = true) ∧
      Piece.matchesStart ps ((if slash then ['/'] else []) ++
        Separated.join '/' (segments.map (·.map Glob.filledChar))) = true := by
  induction segments generalizing first slash with
  | nil => exact absurd rfl hne
  | cons s segments ih =>
    rw [Free, List.forall_mem_cons] at h
    obtain ⟨⟨-, -, hdepth, hfree⟩, h⟩ := h
    obtain ⟨ps, hps, hsound, hmatches⟩ := exists_namePieces_filled hfree
    cases segments with
    | nil =>
      have hclose := hmatches [.close] [] (by decide)
      rw [List.append_nil] at hclose
      have hsound' : ∀ p ∈ ps ++ [Piece.close], p.isSound = true :=
        List.forall_mem_append.mpr ⟨hsound, by decide⟩
      refine ⟨_, ?_, slashed_filled slash hsound' hclose⟩
      rw [piecesFrom, if_neg hdepth, hps]
      simp [Except.map]
    | cons t rest =>
      obtain ⟨qs, hqs, hrest, hmatches'⟩ := ih false true (List.cons_ne_nil t rest) h
      have hsound' : ∀ p ∈ ps ++ qs, p.isSound = true :=
        List.forall_mem_append.mpr ⟨hsound, hrest⟩
      refine ⟨_, ?_, slashed_filled slash hsound' (hmatches qs _ hmatches')⟩
      rw [piecesFrom, if_neg hdepth, hps]
      simp [hqs, Except.map]

theorem opened_of_nil_not_mem (h : [] ∉ segments) : opened segments = segments := by
  fun_induction opened segments with
  | case1 => rfl
  | case2 => simp at h
  | case3 => rfl
  | case4 s segments _ ih => rw [ih (fun hnil => h (List.mem_cons_of_mem s hnil))]

/-- Two names or more are the segments of the pattern that they make. -/
theorem segments_of_free (h : Free segments) (hlong : 2 ≤ segments.length) :
    Pattern.segments (Separated.join '/' segments) = segments := by
  obtain ⟨s, t, rest, rfl⟩ : ∃ s t rest, segments = s :: t :: rest := by
    match segments, hlong with
    | s :: t :: rest, _ => exact ⟨s, t, rest, rfl⟩
  have hdepth : ∀ u ∈ s :: t :: rest, u ≠ anyDepth := fun u hu => (h u hu).2.2.1
  have hanchored : anchored (s :: t :: rest) = s :: t :: rest := by
    refine anchored_cons (h s List.mem_cons_self).1 (List.cons_ne_nil t rest) ?_
    rintro hopen
    exact (h t (by simp)).1 (List.cons.inj hopen).1
  have hopened : opened (s :: t :: rest) = s :: t :: rest :=
    opened_of_nil_not_mem fun hnil => (h [] hnil).1 rfl
  rw [Pattern.segments, Separated.split_join (List.cons_ne_nil _ _) fun u hu => (h u hu).2.1,
    hanchored, merged_opened hdepth, hopened]

/-- So does the rule of a pattern with at least two segments. -/
theorem exists_ruleOf_filled (restores : Bool) (h : Free segments) (hs : s ∈ segments)
    (hname : s ≠ anyName) (hlong : 2 ≤ segments.length) :
    ∃ ps, ruleOf restores (Separated.join '/' segments) = .ok (.active restores (.pieces ps)) ∧
      Piece.matchesStart ps (Separated.join '/' (segments.map (·.map Glob.filledChar))) = true := by
  have hne : segments ≠ [] := List.ne_nil_of_mem hs
  have hsegments := segments_of_free h hlong
  obtain ⟨ps, hps, hsound, hmatches⟩ := exists_piecesFrom_filled true false hne h
  refine ⟨ps, ruleOf_of_piecesFrom restores (s := s) ?_ (h s hs).2.2.1 hname ?_ hsound, hmatches⟩
  · rwa [hsegments]
  · rwa [hsegments]

end Pattern

/-- A name that is matched by a name with stars and question marks. -/
def SlashPath.filled (name : String) : String := String.ofList (name.toList.map Glob.filledChar)

theorem SlashPath.toList_filled (name : String) :
    (filled name).toList = name.toList.map Glob.filledChar := String.toList_ofList

theorem SlashPath.IsName.filled {name : String} (h : IsName name) : IsName (filled name) := by
  have htoList := toList_filled name
  have heq : ∀ c, Glob.filledChar c = c ∨ Glob.filledChar c = 'x' := by
    intro c
    rw [Glob.filledChar]
    split_ifs <;> simp
  refine ⟨fun hempty => ?_, fun hslash => ?_, fun hdot => ?_⟩
  · rw [hempty] at htoList
    exact h.toList_ne_nil (List.map_eq_nil_iff.mp htoList.symm)
  · rw [htoList, List.mem_map] at hslash
    obtain ⟨c, hc, hfilled⟩ := hslash
    rcases heq c with hself | hx
    · exact h.slash (by rwa [← hfilled, hself])
    · rw [hx] at hfilled
      exact absurd hfilled (by decide)
  · rw [hdot] at htoList
    obtain ⟨c, hname, hfilled⟩ := List.map_eq_singleton_iff.mp htoList.symm
    rcases heq c with hself | hx
    · rw [hself] at hfilled
      exact h.ne_dot (String.toList_inj.mp (by rw [hname, hfilled]; rfl))
    · rw [hx] at hfilled
      exact absurd hfilled (by decide)

/-! ### Directories with stars and question marks -/

namespace IgnoreFile

open SlashPath (IsPlace ofSteps)

/-- A directory with a star or a question mark in its names, and nothing else that has a role in a
pattern. -/
structure Wild (directory : List String) : Prop where
  /-- The directory is below the root. -/
  isPlace : IsPlace directory
  /-- There are no backslashes and no brackets. -/
  isFree : ∀ name ∈ directory, ∀ c ∈ name.toList, Glob.isFree c = true
  /-- No name stands for any number of directories. -/
  not_mem : "**" ∉ directory
  /-- Nothing is taken for the mark that restores, or for a comment. -/
  head : (ofSteps directory).toList.head? ≠ some '!' ∧ (ofSteps directory).toList.head? ≠ some '#'
  /-- There is a star or a question mark. -/
  exists_wildcard : ∃ name ∈ directory, ∃ c ∈ name.toList, Glob.isOrdinary c = false

variable {root directory : List String}

theorem Wild.isPlace_filled (h : Wild directory) : IsPlace (directory.map SlashPath.filled) := by
  refine ⟨by simpa using h.isPlace.ne_nil, List.forall_mem_map.mpr fun name hname => ?_⟩
  exact (h.isPlace.isName name hname).filled

theorem Wild.filled_ne (h : Wild directory) : directory.map SlashPath.filled ≠ directory := by
  intro heq
  obtain ⟨name, hname, c, hc, hwild⟩ := h.exists_wildcard
  have hname := congrArg String.toList
    (List.map_inj_left.mp (heq.trans (List.map_id directory).symm) name hname)
  rw [SlashPath.toList_filled, id_eq] at hname
  have hc := List.map_inj_left.mp (hname.trans (List.map_id name.toList).symm) c hc
  rw [Glob.filledChar, hwild, if_neg Bool.false_ne_true, id_eq] at hc
  subst hc
  exact absurd hwild (by decide)

theorem Wild.free (h : Wild directory) :
    Pattern.Free ((directory ++ ["a.js"]).map String.toList) := by
  refine List.forall_mem_map.mpr (List.forall_mem_append.mpr ⟨fun name hname => ?_, ?_⟩)
  · have hlegal := h.isPlace.isName name hname
    refine ⟨hlegal.toList_ne_nil, hlegal.slash, fun hdepth => ?_, h.isFree name hname⟩
    have hstars : name = "**" := String.toList_inj.mp hdepth
    exact h.not_mem (hstars ▸ hname)
  · rw [List.forall_mem_singleton]
    exact ⟨by decide, by decide, by decide, List.all_eq_true.mp (by decide)⟩

/-- **A line of the ignore file reaches a place where the names are filled in.** -/
theorem Wild.exists_rule (h : Wild directory) (root : List String) :
    ∃ r, Pattern.rule (rebaseLine (base root (root ++ directory)) "/a.js".toList) = .ok r ∧
      r.verdict? (ofSteps (directory.map SlashPath.filled ++ ["a.js"])).toList = some true := by
  have hne := h.isPlace.ne_nil
  have hpattern : rebaseLine (base root (root ++ directory)) "/a.js".toList =
      (ofSteps directory).toList ++ "/a.js".toList := by
    rw [base_append root hne]
    exact List.append_assoc ..
  have htext : (ofSteps directory).toList ++ "/a.js".toList =
      Separated.join '/' ((directory ++ ["a.js"]).map String.toList) := by
    rw [← SlashPath.toList_ofSteps (by simp),
      SlashPath.toList_ofSteps_append hne (List.cons_ne_nil _ _)]
    rfl
  have hrule : Pattern.rule ((ofSteps directory).toList ++ "/a.js".toList) =
      Pattern.ruleOf false ((ofSteps directory).toList ++ "/a.js".toList) := by
    refine @rule_mark false ((ofSteps directory).toList ++ "/a.js".toList)
      (fun d hd => ?_) fun _ => ?_
    · rw [mark, List.nil_append, List.getLast?_append] at hd
      cases hd
      rfl
    · obtain ⟨c, cs, hcs⟩ := List.exists_cons_of_ne_nil h.isPlace.toList_ne_nil
      have hhead := h.head
      rw [hcs] at hhead ⊢
      exact ⟨by simp, by simp, hhead⟩
  obtain ⟨ps, hps, hmatches⟩ := Pattern.exists_ruleOf_filled (s := "a.js".toList) false h.free
    (by simp) (by decide) (by simpa [Nat.one_le_iff_ne_zero] using hne)
  rw [hpattern, hrule, htext, hps]
  refine ⟨_, rfl, if_pos ?_⟩
  rw [SlashPath.toList_ofSteps (by simp)]
  have hnames : (directory.map SlashPath.filled ++ ["a.js"]).map String.toList =
      ((directory ++ ["a.js"]).map String.toList).map (·.map Glob.filledChar) := by
    simp only [List.map_append, List.map_map, List.map_cons, List.map_nil]
    refine congrArg₂ _ (List.map_congr_left fun name _ => SlashPath.toList_filled name) ?_
    decide
  rw [hnames]
  exact hmatches

end IgnoreFile
end ScopeIndex
