import Mathlib
import ScopeIndex.Proofs.Rebasing

/-!
# What the slash in front is worth

Rebasing the ignore file of the root drops the slash in front of a pattern.  Where nothing else pins
the pattern to the top it is then looked for at every depth, and where the slash hid the start of a
comment or the mark that restores, the line becomes one.  For plain lines these are the only ways to
change: a line that means the same wherever it stands is steady.

A steady line with a slash in front matches only below the directories at the top that its first
segment names.

## Main definitions

* `IgnoreFile.Plain` — a line of ordinary characters.
* `IgnoreFile.BelowTop` — a path that leads below a directory at the top.

## Main results

* `IgnoreFile.steady_of_sameMeaning` — **a plain line that keeps its meaning is steady.**
* `IgnoreFile.Steady.belowTop` — a steady line stays pinned.
* `IgnoreFile.read_at_root` — **when the ignore file of the root means the same as seen from the
  root.**
-/

namespace ScopeIndex
namespace IgnoreFile

open IgnoreSpec

variable {line pattern : List Char} {restores : Bool}

/-! ### Lines that change -/

/-- A line of ordinary characters without two slashes next to each other. -/
structure Plain (line : List Char) : Prop where
  /-- No character has a role in a segment. -/
  isOrdinary : ∀ c ∈ line, Glob.isOrdinary c = true
  /-- No name is empty. -/
  tidy : ¬ ['/', '/'] <:+: line

theorem Plain.of_suffix (h : Plain line) (hsuffix : pattern <:+ line) : Plain pattern :=
  ⟨fun c hc => h.isOrdinary c (hsuffix.subset hc), fun hd => h.tidy (hd.trans hsuffix.isInfix)⟩

/-- Some file is where an ordinary pattern points to. -/
theorem exists_isFilePath (hne : pattern ≠ []) (hhead : pattern.head? ≠ some '/')
    (htidy : ¬ ['/', '/'] <:+: pattern) :
    ∃ rest, Pattern.IsFilePath (pattern ++ rest) ∧
      Piece.matchesStart (pattern.map .char ++ Pattern.ending (Separated.split '/' pattern))
        (pattern ++ rest) = true := by
  by_cases hlast : pattern.getLast? = some '/'
  · -- a file in the directory
    refine ⟨['x'], ?_, ?_⟩
    · obtain ⟨before, rfl⟩ := List.getLast?_eq_some_iff.mp hlast
      have hsplit : Separated.split '/' (before ++ ['/'] ++ ['x']) =
          Separated.split '/' before ++ [['x']] := by
        rw [List.append_assoc, List.singleton_append, Separated.split_append]
        rfl
      rw [Pattern.IsFilePath, hsplit, List.mem_append, Separated.nil_mem_split_iff]
      rintro ((rfl | hfirst | hend | hdouble) | hfile)
      · exact hhead rfl
      · exact hhead (by rw [List.head?_append, hfirst]; rfl)
      · obtain ⟨start, rfl⟩ := List.getLast?_eq_some_iff.mp hend
        exact htidy ⟨start, [], by simp⟩
      · exact htidy (hdouble.trans (List.prefix_append _ _).isInfix)
      · simp at hfile
    · have hending : Pattern.ending (Separated.split '/' pattern) = [] :=
        if_pos (Separated.getLast?_split_eq_nil_iff.mpr (.inr hlast))
      rw [hending, Piece.matchesStart_map_char, Piece.matchesStart_nil]
  · refine ⟨[], ?_, ?_⟩
    · rw [List.append_nil, Pattern.IsFilePath, Separated.nil_mem_split_iff]
      simp [hne, hhead, hlast, htidy]
    · have hending : Pattern.ending (Separated.split '/' pattern) = [.close] :=
        if_neg fun hempty => (Separated.getLast?_split_eq_nil_iff.mp hempty).elim hne hlast
      rw [hending, Piece.matchesStart_map_char]
      rfl

theorem normalPath_eq_self {path : List Char} (hslash : path.head? ≠ some '/')
    (hdot : ¬ ['.', '/'] <+: path) : normalPath path = path := by
  unfold normalPath
  split
  · exact absurd rfl hslash
  · exact absurd ⟨_, rfl⟩ hdot
  · rfl

/-- A pattern behind the mark ignores nothing. -/
theorem verdict?_of_restores {r : IgnoreRule} (h : Pattern.ruleOf true pattern = .ok r)
    (path : List Char) : r.verdict? path ≠ some true := by
  have hrule : r = .void ∨ ∃ test, r = .active true test := by
    unfold Pattern.ruleOf at h
    dsimp only at h
    split at h
    · cases h
    · split at h
      · cases h
      · exact .inl (Except.ok.inj h).symm
      · split at h
        · exact .inr ⟨_, (Except.ok.inj h).symm⟩
        · cases h
  rcases hrule with rfl | ⟨test, rfl⟩
  · simp [IgnoreRule.verdict?]
  · simp [IgnoreRule.verdict?]

/-- What a slash in front hides comes out: a comment, or a mark that restores. -/
theorem verdict?_of_hidden {r : IgnoreRule}
    (hlast : ∀ c ∈ pattern.getLast?, Lines.isBlank c = false)
    (hhead : pattern.head? = some '#' ∨ pattern.head? = some '!')
    (hrule : Pattern.rule pattern = .ok r) (path : List Char) : r.verdict? path ≠ some true := by
  rw [Pattern.rule, trimmed_of_getLast hlast] at hrule
  rcases hhead with hhead | hhead
  · simp only [hhead, true_or, or_true, if_true] at hrule
    cases hrule
    simp [IgnoreRule.verdict?]
  · obtain ⟨rest, rfl⟩ := List.head?_eq_some_iff.mp hhead
    exact verdict?_of_restores (by simpa using hrule) path

/-- A line whose slash hides a comment or a mark loses its meaning. -/
theorem not_sameMeaning_of_hidden (hline : IsLine ('/' :: pattern))
    (hplain : Plain ('/' :: pattern))
    (hhead : pattern.head? = some '#' ∨ pattern.head? = some '!') :
    ¬ SameMeaning (lineSpec (rebaseLine [] ('/' :: pattern))) (lineSpec ('/' :: pattern)) := by
  have hne : pattern ≠ [] := by
    rintro rfl
    simp at hhead
  have hslash : pattern.head? ≠ some '/' := by
    rcases hhead with hhead | hhead <;> simp [hhead]
  obtain ⟨hordinary, htidy⟩ := hplain.of_suffix (List.suffix_cons '/' pattern)
  have hlast := hline.getLast_of_suffix (List.suffix_cons '/' pattern) hne []
  have hrebased : rebaseLine [] ('/' :: pattern) = pattern := rebase_cons_slash hslash []
  have hrule : Pattern.rule ('/' :: pattern) = Pattern.ruleOf false ('/' :: pattern) :=
    @IsLine.rule_slash _ false hline hne
  obtain ⟨rest, hfile, hmatches⟩ := exists_isFilePath hne hslash htidy
  have hnormal : normalPath (pattern ++ rest) = pattern ++ rest := by
    rcases hhead with hhead | hhead <;> obtain ⟨cs, rfl⟩ := List.head?_eq_some_iff.mp hhead <;> rfl
  intro h
  rw [hrebased, lineSpec, lineSpec, hrule, Pattern.ruleOf_pinned false hordinary hne] at h
  cases hpattern : Pattern.rule pattern with
  | error flaw =>
    rw [hpattern] at h
    cases h
  | ok r =>
    rw [hpattern] at h
    have hiff := h.verdict?_iff hfile
    rw [verdict?_singleton, verdict?_singleton, hnormal] at hiff
    refine verdict?_of_hidden hlast hhead hpattern (pattern ++ rest) (hiff.mpr ?_)
    simp [IgnoreRule.verdict?, PathTest.passes, hmatches]

section Lone

variable {s : List Char} (hs : s ≠ []) (hslash : '/' ∉ s)
include hs hslash

/-- A longer name is as long as it seems. -/
theorem normalPath_longer (rest : List Char) :
    normalPath (s ++ 'x' :: rest) = s ++ 'x' :: rest := by
  obtain ⟨c, cs, rfl⟩ := List.exists_cons_of_ne_nil hs
  rw [List.mem_cons, not_or] at hslash
  refine normalPath_eq_self (by simpa using Ne.symm hslash.1) ?_
  cases cs with
  | nil => simp
  | cons d cs =>
    have hd : '/' ≠ d := List.ne_of_not_mem_cons hslash.2
    simp [hd]

/-- A pinned name does not match a longer name. -/
theorem matchesStart_longer (hpattern : pattern = s ∨ pattern = s ++ ['/']) (rest : List Char) :
    Piece.matchesStart (pattern.map .char ++ Pattern.ending (Separated.split '/' pattern))
      (s ++ 'x' :: rest) = false := by
  rcases hpattern with rfl | rfl
  · have hending : Pattern.ending (Separated.split '/' pattern) = [.close] := by
      rw [Separated.split_of_not_mem hslash, Pattern.ending]
      simp [hs]
    rw [hending, Piece.matchesStart_map_char]
    simp [Piece.rests, Piece.afterSlash?]
  · have hending : Pattern.ending (Separated.split '/' (s ++ ['/'])) = [] := by
      rw [Separated.split_append, Pattern.ending]
      simp
    rw [hending, List.append_nil, List.map_append, Piece.matchesStart_map_char]
    rfl

end Lone

/-- What is below a directory is the path of a file. -/
theorem isFilePath_below {s path : List Char} (hslash : '/' ∉ s) (h : Pattern.IsFilePath path) :
    Pattern.IsFilePath (s ++ 'x' :: '/' :: path) := by
  have hsplit : Separated.split '/' (s ++ ['x']) = [s ++ ['x']] :=
    Separated.split_of_not_mem (by simp [hslash])
  rw [List.append_cons, Pattern.IsFilePath, Separated.split_append, hsplit, List.singleton_append,
    List.mem_cons, not_or]
  exact ⟨by simp, h⟩

/-- A lone name is pinned to the top by nothing but the slash in front. -/
theorem not_sameMeaning_of_lone {s : List Char} (earlier : IgnoreSpec)
    (hline : IsLine (mark restores ++ '/' :: pattern))
    (hplain : Plain (mark restores ++ '/' :: pattern)) (hs : s ≠ []) (hslash : '/' ∉ s)
    (hpattern : pattern = s ∨ pattern = s ++ ['/'])
    (hhead : restores = false → pattern.head? ≠ some '!' ∧ pattern.head? ≠ some '#')
    (hearlier : ∀ path, 'x' ∈ normalPath path →
      (verdict? earlier path = some true ↔ restores = true)) :
    ¬ SameMeaning
      (followed (.ok earlier) (lineSpec (rebaseLine [] (mark restores ++ '/' :: pattern))))
      (followed (.ok earlier) (lineSpec (mark restores ++ '/' :: pattern))) := by
  have hbegins : s <+: pattern := by
    rcases hpattern with rfl | rfl
    · exact List.prefix_rfl
    · exact List.prefix_append _ _
  have hne : pattern ≠ [] := fun hnil => hs (List.prefix_nil.mp (hnil ▸ hbegins))
  have hstart : pattern.head? ≠ some '/' := by
    obtain ⟨c, cs, rfl⟩ := List.exists_cons_of_ne_nil hs
    obtain ⟨rest, rfl⟩ := hbegins
    intro hc
    exact hslash (by simp_all)
  obtain ⟨hordinary, htidy⟩ := hplain.of_suffix (suffix_mark_slash restores pattern)
  -- a file to which the pattern points, moved below a directory with a longer name
  obtain ⟨rest, hfile, hmatches⟩ := exists_isFilePath hne hstart htidy
  have hnormal := normalPath_longer hs hslash ('/' :: (pattern ++ rest))
  have hpinned := matchesStart_longer hs hslash hpattern ('/' :: (pattern ++ rest))
  have hfloats : Piece.matchesStart
      (.above :: (pattern.map .char ++ Pattern.ending (Separated.split '/' pattern)))
      (s ++ 'x' :: '/' :: (pattern ++ rest)) = true := by
    have hbreak : '\n' ∉ s ++ ['x'] := by
      intro hmem
      have hmem : '\n' ∈ s := by simpa using hmem
      have hbreaks := hline.breaks _ ((suffix_mark_slash _ _).subset (hbegins.subset hmem))
      exact absurd hbreaks (by decide)
    rw [Piece.matchesStart_cons, List.any_eq_true, List.append_cons]
    exact ⟨_, Piece.mem_rests_above_append (by simp) hbreak _, hmatches⟩
  intro h
  rw [lineSpec, lineSpec, hline.rule_rebased hne hstart hhead, hline.rule_slash hne,
    Pattern.ruleOf_pinned restores hordinary hne,
    Pattern.ruleOf_floating restores (fun c hc => hordinary c (hbegins.subset hc)) hs hslash
      hpattern] at h
  have hiff := h.verdict?_iff (isFilePath_below hslash hfile)
  have hearlier := hearlier (s ++ 'x' :: '/' :: (pattern ++ rest)) (by rw [hnormal]; simp)
  rw [verdict?_append, verdict?_append, verdict?_singleton, verdict?_singleton, hnormal] at hiff
  simp only [IgnoreRule.verdict?, PathTest.passes, hfloats, hpinned] at hiff
  simp [hearlier] at hiff

theorem steady_of_slash (hline : IsLine (mark restores ++ '/' :: pattern))
    (hplain : Plain (mark restores ++ '/' :: pattern))
    (halone : SameMeaning (lineSpec (rebaseLine [] (mark restores ++ '/' :: pattern)))
      (lineSpec (mark restores ++ '/' :: pattern)))
    (hbehind : SameMeaning
      (followed (.ok [.active false .everything])
        (lineSpec (rebaseLine [] (mark restores ++ '/' :: pattern))))
      (followed (.ok [.active false .everything]) (lineSpec (mark restores ++ '/' :: pattern)))) :
    Steady (mark restores ++ '/' :: pattern) := by
  have hunmarked : Pattern.unmarked (mark restores ++ '/' :: pattern) = '/' :: pattern := by
    cases restores <;> rfl
  by_cases hne : pattern = []
  · subst hne
    cases restores with
    | false => exact .hollow (by simp [mark])
    | true => cases halone
  have hhead : pattern.head? ≠ some '/' := by
    intro hslash
    obtain ⟨rest, rfl⟩ := List.head?_eq_some_iff.mp hslash
    exact hplain.tidy ⟨mark restores, rest, by simp⟩
  -- without a mark, what the slash hides comes out first
  by_cases hhidden : restores = false ∧ (pattern.head? = some '#' ∨ pattern.head? = some '!')
  · obtain ⟨rfl, hhidden⟩ := hhidden
    exact absurd halone (not_sameMeaning_of_hidden hline hplain hhidden)
  have hshown : restores = false → pattern.head? ≠ some '!' ∧ pattern.head? ≠ some '#' := by
    intro hrestores
    exact ⟨fun h => hhidden ⟨hrestores, .inr h⟩, fun h => hhidden ⟨hrestores, .inl h⟩⟩
  cases hinner : hasInnerSlash pattern with
  | true =>
    refine .pinned hunmarked hhead hinner fun hslash => hshown ?_
    cases restores with
    | false => rfl
    | true => simp [mark] at hslash
  | false =>
    obtain ⟨s, hs, hslash, hlone | hdouble⟩ := exists_lone hinner hne hhead
    · cases restores with
      | false =>
        -- alone, the line ignores a file elsewhere that it did not ignore
        have hnothing : ∀ x : Except PatternFlaw IgnoreSpec, followed (.ok []) x = x := by
          intro x
          cases x <;> rfl
        refine absurd ?_ (not_sameMeaning_of_lone [] hline hplain hs hslash hlone hshown ?_)
        · rwa [hnothing, hnothing]
        · intro path _
          simp [verdict?]
      | true =>
        -- where all files are ignored, it restores one elsewhere
        refine absurd hbehind (not_sameMeaning_of_lone _ hline hplain hs hslash hlone hshown ?_)
        intro path hx
        have hany : (normalPath path).any (· ≠ '\n') = true :=
          List.any_eq_true.mpr ⟨'x', hx, by decide⟩
        rw [verdict?_singleton, IgnoreRule.verdict?, PathTest.passes, hany]
        simp
    · exact absurd hdouble (hplain.of_suffix (suffix_mark_slash _ _)).tidy

/-- Alone and behind a line that ignores all files, only steady lines mean the same. -/
theorem steady_of_lineSpec (hline : IsLine line) (hplain : Plain line)
    (halone : SameMeaning (lineSpec (rebaseLine [] line)) (lineSpec line))
    (hbehind : SameMeaning
      (followed (.ok [.active false .everything]) (lineSpec (rebaseLine [] line)))
      (followed (.ok [.active false .everything]) (lineSpec line))) : Steady line := by
  obtain ⟨restores, hmarked, -⟩ := exists_mark line
  cases hunmarked : Pattern.unmarked line with
  | nil =>
    rw [hunmarked] at hmarked
    subst hmarked
    cases restores with
    | false => exact absurd rfl hline.ne_nil
    | true => cases halone
  | cons c pattern =>
    by_cases hc : c = '/'
    · subst hc
      rw [hunmarked] at hmarked
      subst hmarked
      exact steady_of_slash hline hplain halone hbehind
    · exact .free (by simp [hunmarked]) (by simpa [hunmarked] using hc)

/-- A line that may stand behind any steady lines is steady, if it is plain. -/
theorem steady_of_sameMeaning (hlines : lines line = [line]) (hplain : Plain line)
    (h : ∀ (text : String) (earlier : List (List Char)), lines text.toList = earlier ++ [line] →
      (∀ l ∈ earlier, Steady l) →
      SameMeaning (read (Utf8.encode text) (some [])) (read (Utf8.encode text) none)) :
    Steady line := by
  have hline : IsLine line := isLine_of_mem_lines (hlines ▸ List.mem_singleton_self line)
  have halone : SameMeaning (lineSpec (rebaseLine [] line)) (lineSpec line) := by
    have hread := h (String.ofList line) [] (by rw [String.toList_ofList, hlines]; rfl) (by simp)
    rw [sameMeaning_read_iff, String.toList_ofList, hlines] at hread
    exact hread.congr (agree_rules_singleton _) (agree_rules_singleton _)
  have hbehind : SameMeaning
      (followed (.ok [.active false .everything]) (lineSpec (rebaseLine [] line)))
      (followed (.ok [.active false .everything]) (lineSpec line)) := by
    have hstar : lines ('*' :: '\n' :: line) = [['*']] ++ [line] := by
      rw [← hlines]
      rfl
    have hread := h (String.ofList ('*' :: '\n' :: line)) [['*']]
      (by rw [String.toList_ofList, hstar])
      (by simpa using .free (by decide) (by decide))
    rw [sameMeaning_read_iff, String.toList_ofList, hstar] at hread
    refine hread.congr ?_ ?_
    · exact (agree_rules_cons _ _).trans ((Agree.refl _).followed (agree_rules_singleton _))
    · exact (agree_rules_cons _ _).trans ((Agree.refl _).followed (agree_rules_singleton _))
  exact steady_of_lineSpec hline hplain halone hbehind

/-! ### What stays pinned -/

/-- A path leads below a directory at the top whose name matches a segment. -/
def BelowTop (segment path : List Char) : Prop :=
  ∃ ps, Pattern.namePieces segment = .ok ps ∧ Piece.matchesStart (ps ++ [.char '/']) path = true

/-- The pieces of a pattern with an inner slash start with those of its first segment. -/
theorem belowTop_of_verdict? {segment path : List Char} {r : IgnoreRule}
    (hinner : hasInnerSlash pattern = true) (hhead : pattern.head? ≠ some '/')
    (hfirst : (Separated.split '/' pattern).head? = some segment)
    (hdepth : segment ≠ Pattern.anyDepth) (hrule : Pattern.ruleOf restores pattern = .ok r)
    (hverdict : r.verdict? path ≠ none) : BelowTop segment path := by
  obtain ⟨s, rest, hsplit, hs, hne, hopen⟩ := exists_split_of_hasInnerSlash hinner hhead
  obtain rfl : s = segment := by simpa [hsplit] using hfirst
  obtain ⟨t, others, hopened⟩ := List.exists_cons_of_ne_nil (Pattern.opened_eq_nil_iff.not.mpr hne)
  obtain ⟨u, us, hmerged⟩ := List.exists_cons_of_ne_nil
    (Pattern.merged_eq_nil_iff.not.mpr (List.cons_ne_nil t others))
  have hsegments : Pattern.segments pattern = s :: u :: us := by
    obtain ⟨v, vs, rfl⟩ := List.exists_cons_of_ne_nil hne
    have hstep : Pattern.opened (s :: v :: vs) = s :: Pattern.opened (v :: vs) := rfl
    rw [Pattern.segments, hsplit, Pattern.anchored_cons hs hne hopen, hstep, hopened,
      Pattern.merged, if_neg (fun hgap => hdepth hgap.1), hmerged]
  have htest : Pattern.test (Pattern.isDirectory pattern) (Pattern.segments pattern) =
      (Pattern.piecesFrom true false (Pattern.segments pattern)).map .pieces := by
    rw [hsegments, Pattern.test, if_neg, if_neg, if_neg] <;> simp [hdepth]
  obtain ⟨ps, hpieces, hmatches⟩ := Pattern.exists_pieces_of_verdict? htest hrule hverdict
  rw [hsegments] at hpieces
  obtain ⟨name, behind, hname, hbehind, rfl⟩ := Pattern.piecesFrom_cons_cons hdepth us hpieces
  refine ⟨name, hname, Piece.matchesStart_append_mono ?_ hmatches⟩
  -- the segments behind the first one match nothing without a slash
  intro left hleft
  obtain ⟨cs, rfl⟩ := List.head?_eq_some_iff.mp
    (Pattern.head?_of_matchesStart hbehind (List.cons_ne_nil u us) hleft)
  rfl

/-- **A steady line with a slash in front is pinned** as seen from the root. -/
theorem Steady.belowTop {segment path : List Char} {r : IgnoreRule} (h : Steady line)
    (hline : IsLine line) (hslash : Pattern.unmarked line = '/' :: pattern)
    (hfirst : (Separated.split '/' pattern).head? = some segment)
    (hdepth : segment ≠ Pattern.anyDepth) (hrule : Pattern.rule (rebaseLine [] line) = .ok r)
    (hverdict : r.verdict? path ≠ none) : BelowTop segment path := by
  cases h with
  | hollow h =>
    rw [rebaseLine_hollow hline.ne_nil h] at hrule
    cases hrule
    exact absurd rfl hverdict
  | free hne hhead =>
    rw [hslash] at hhead
    exact absurd rfl hhead
  | pinned hslash' hhead hinner hshown =>
    obtain rfl := List.cons.inj (hslash.symm.trans hslash') |>.2
    obtain ⟨restores, rfl, hmark⟩ := exists_mark_slash hslash hshown
    rw [hline.rule_rebased (ne_nil_of_hasInnerSlash hinner) hhead hmark] at hrule
    exact belowTop_of_verdict? hinner hhead hfirst hdepth hrule hverdict

/-- **The ignore file of the root, as seen from the root.**  It means the same if all of its lines
are steady.  A plain line is steady just when it means the same behind all lines that do.  This is
not exact for lines with globs: `/**` means the same and is not steady.  And a steady line with a
slash in front, unless it starts with a gap, decides only about what is below a directory at the
top that its first segment names. -/
theorem read_at_root (root : List String) :
    (∀ bytes : List UInt8,
      (∀ text : String, bytes = Utf8.encode text → ∀ line ∈ lines text.toList, Steady line) →
      SameMeaning (read bytes (some (base root root))) (read bytes none)) ∧
    (∀ line : List Char, lines line = [line] → Plain line →
      (Steady line ↔ ∀ (text : String) (earlier : List (List Char)),
        lines text.toList = earlier ++ [line] → (∀ l ∈ earlier, Steady l) →
        SameMeaning (read (Utf8.encode text) (some (base root root)))
          (read (Utf8.encode text) none))) ∧
    (∀ (text line pattern segment path : List Char) (r : IgnoreRule), line ∈ lines text →
      Steady line → Pattern.unmarked line = '/' :: pattern →
      (Separated.split '/' pattern).head? = some segment → segment ≠ Pattern.anyDepth →
      Pattern.rule (rebaseLine (base root root) line) = .ok r → r.verdict? path ≠ none →
      BelowTop segment path) := by
  rw [base_self]
  refine ⟨?_, ?_, ?_⟩
  · intro bytes hsteady
    cases hdecode : Utf8.decode? bytes with
    | none =>
      rw [read, read, hdecode]
      exact .error _
    | some cs =>
      have hbytes : bytes = Utf8.encode (String.ofList cs) := by
        rw [← Utf8.decode?_eq_some_iff, String.toList_ofList, hdecode]
      subst hbytes
      exact sameMeaning_of_steady (hsteady _ rfl)
  · intro line hlines hplain
    constructor
    · intro hsteady text earlier htext hearlier
      refine sameMeaning_of_steady fun l hl => ?_
      rw [htext, List.mem_append, List.mem_singleton] at hl
      rcases hl with hl | rfl
      · exact hearlier l hl
      · exact hsteady
    · exact steady_of_sameMeaning hlines hplain
  · intro text line pattern segment path r hline hsteady hslash hfirst hdepth hrule hverdict
    exact hsteady.belowTop (isLine_of_mem_lines hline) hslash hfirst hdepth hrule hverdict

theorem read_at_root_steady :
    (∀ line ∈ lines "*.js\n!/src/a.js\nlib/\n//\n".toList, Steady line) ∧
    SameMeaning
      (read (Utf8.encode "*.js\n!/src/a.js\nlib/\n//\n") (some (base ["project"] ["project"])))
      (read (Utf8.encode "*.js\n!/src/a.js\nlib/\n//\n") none) := by
  have hlines : lines "*.js\n!/src/a.js\nlib/\n//\n".toList =
      ["*.js".toList, "!/src/a.js".toList, "lib/".toList, "//".toList] := by decide
  have hsteady : ∀ line ∈ lines "*.js\n!/src/a.js\nlib/\n//\n".toList, Steady line := by
    rw [hlines]
    simp only [List.forall_mem_cons]
    refine ⟨.free (by decide) (by decide), ?_, .free (by decide) (by decide),
      .hollow (by simp), by simp⟩
    exact @Steady.pinned _ "src/a.js".toList (by decide) (by decide) (by decide) (by decide)
  refine ⟨hsteady, (read_at_root ["project"]).1 _ ?_⟩
  intro text hbytes
  have htext := Utf8.decode?_eq_some_iff.mpr hbytes
  rw [Utf8.decode?_eq_some_iff.mpr rfl, Option.some.injEq] at htext
  exact htext ▸ hsteady

/-- A gap of any depth does not need the slash in front. -/
example : Pattern.rule (rebaseLine [] "/**".toList) = Pattern.rule "/**".toList := by rfl

/-- A slash in front of a lone name is lost: seen from the root, the name is looked for at every
depth. -/
theorem read_at_root_unpins : ∃ spec spec',
    read (Utf8.encode "/a.js\n") (some (base ["project"] ["project"])) = .ok spec ∧
    read (Utf8.encode "/a.js\n") none = .ok spec' ∧
    "" ∉ SlashPath.steps "sub/a.js" ∧
    ignores spec "sub/a.js" = true ∧ ignores spec' "sub/a.js" = false := by
  refine ⟨[.active false (.pieces (.above :: (['a', '.', 'j', 's'].map .char ++ [.close])))],
    [.active false (.pieces (['a', '.', 'j', 's'].map .char ++ [.close]))], ?_, ?_, ?_, ?_, ?_⟩
  · rw [read_encode]
    rfl
  · rw [read_encode]
    rfl
  · decide
  · decide
  · decide

end IgnoreFile
end ScopeIndex
