import Mathlib
import ScopeIndex.Ignore.File
import ScopeIndex.Proofs.Matching
import ScopeIndex.Proofs.Utf8
import ScopeIndex.Text.SlashPath

/-!
# An ignore file as seen from its own directory

The lines of an ignore file are rebased before they are read.  For the file of the root the way to
its directory is empty, so all that this does is to drop slashes in front and to put a gap of any
depth in front of names.  The gap is what such a name stands for anyway.  A slash in front pins a
pattern to the top, and it may go if a slash inside does the same.

What is read is compared by what it decides about files.  Readings that agree line by line agree as
a whole, since the last rule that matches decides.

## Main definitions

* `IgnoreSpec.Agree`, `IgnoreSpec.SameMeaning` — two readings decide the same about all files, or
  ignore the same ones.
* `IgnoreFile.IsLine` — what can be a line of a file.
* `IgnoreFile.Steady` — the lines that do not depend on the slash in front.

## Main results

* `IgnoreFile.agree_rules_map` — a file can be changed line by line.
* `IgnoreFile.ruleOf_cons_slash`, `IgnoreFile.ruleOf_anyDepth_cons` — what a slash and a gap in front
  are worth.
* `IgnoreFile.Steady.agree` — **a steady line decides the same when it is rebased.**
* `IgnoreFile.sameMeaning_of_steady` — **so does a file of steady lines.**
-/

namespace ScopeIndex

/-! ### Readings that agree -/

namespace IgnoreSpec

variable {ε : Type} {x x' y y' : Except ε IgnoreSpec}

/-- Two readings decide the same about every file, or fail in the same way. -/
inductive Agree : Except ε IgnoreSpec → Except ε IgnoreSpec → Prop
  | ok {spec spec' : IgnoreSpec} :
      (∀ path, Pattern.IsFilePath path → verdict? spec path = verdict? spec' path) →
      Agree (.ok spec) (.ok spec')
  | error (e : ε) : Agree (.error e) (.error e)

theorem Agree.refl (x : Except ε IgnoreSpec) : Agree x x := by
  cases x with
  | error e => exact .error e
  | ok spec => exact .ok fun _ _ => rfl

theorem Agree.symm (h : Agree x y) : Agree y x := by
  cases h with
  | ok h => exact .ok fun path hpath => (h path hpath).symm
  | error e => exact .error e

theorem Agree.trans (hxy : Agree x x') (hyz : Agree x' y) : Agree x y := by
  cases hxy with
  | ok hxy =>
    cases hyz with
    | ok hyz => exact .ok fun path hpath => (hxy path hpath).trans (hyz path hpath)
  | error e => exact hyz

/-- One reading behind another. -/
def followed (x y : Except ε IgnoreSpec) : Except ε IgnoreSpec :=
  x.bind fun spec => y.map (spec ++ ·)

theorem Agree.followed (hx : Agree x x') (hy : Agree y y') :
    Agree (followed x y) (followed x' y') := by
  cases hx with
  | error e => exact .error e
  | ok hx =>
    cases hy with
    | error e => exact .error e
    | ok hy =>
      refine .ok fun path hpath => ?_
      rw [verdict?_append, verdict?_append, hx path hpath, hy path hpath]

/-- What rules see of the path of a file is the path of a file. -/
theorem isFilePath_normalPath {path : List Char} (h : Pattern.IsFilePath path) :
    Pattern.IsFilePath (normalPath path) := by
  unfold normalPath
  split
  · next cs => exact fun hnil => h (by rw [Separated.split_cons_sep]; exact .tail _ hnil)
  · next cs =>
    intro hnil
    refine h ?_
    have hsplit : Separated.split '/' ('.' :: '/' :: cs) = ['.'] :: Separated.split '/' cs := rfl
    rw [hsplit]
    exact List.mem_cons_of_mem _ hnil
  · exact h

theorem verdict?_singleton (r : IgnoreRule) (path : List Char) :
    verdict? [r] path = r.verdict? (normalPath path) := by
  cases h : r.verdict? (normalPath path) <;> simp [verdict?, h]

end IgnoreSpec

namespace IgnoreFile

open IgnoreSpec

/-- The reading of one line. -/
def lineSpec (line : List Char) : Except PatternFlaw IgnoreSpec :=
  (Pattern.rule line).map fun r => [r]

/-- Two lines that fail alike and whose rules decide alike agree. -/
theorem agree_lineSpec {line line' : List Char}
    (hflaw : ∀ flaw, Pattern.rule line = .error flaw ↔ Pattern.rule line' = .error flaw)
    (hverdict : ∀ r r' path, Pattern.rule line = .ok r → Pattern.rule line' = .ok r' →
      Pattern.IsFilePath path → r.verdict? path = r'.verdict? path) :
    Agree (lineSpec line) (lineSpec line') := by
  unfold lineSpec
  cases h : Pattern.rule line with
  | error flaw =>
    rw [(hflaw flaw).mp h]
    exact .error flaw
  | ok r =>
    cases h' : Pattern.rule line' with
    | error flaw =>
      rw [(hflaw flaw).mpr h'] at h
      cases h
    | ok r' =>
      refine .ok fun path hpath => ?_
      rw [verdict?_singleton, verdict?_singleton]
      exact hverdict r r' _ h h' (isFilePath_normalPath hpath)

/-- The lines of a file are read one after the other; an empty line decides nothing. -/
theorem agree_rules_cons (line : List Char) (lines : List (List Char)) :
    Agree (rules (line :: lines)) (followed (lineSpec line) (rules lines)) := by
  by_cases hempty : line = []
  · subst hempty
    have hrules : rules ([] :: lines) = rules lines := rfl
    have hspec : lineSpec [] = .ok [.void] := rfl
    rw [hrules, hspec]
    cases rules lines with
    | error flaw => exact .error flaw
    | ok spec =>
      refine .ok fun path _ => ?_
      rw [verdict?_append, verdict?_singleton]
      cases verdict? spec path <;> rfl
  · have hfollowed : rules (line :: lines) = followed (lineSpec line) (rules lines) := by
      rw [rules, List.filter_cons_of_pos (by simpa using hempty), List.mapM_cons]
      unfold followed lineSpec rules
      cases Pattern.rule line with
      | error flaw => rfl
      | ok r => cases (lines.filter (!·.isEmpty)).mapM Pattern.rule <;> rfl
    rw [hfollowed]
    exact Agree.refl _

theorem agree_rules_singleton (line : List Char) : Agree (rules [line]) (lineSpec line) := by
  have hrules := agree_rules_cons line []
  have hfollowed : followed (lineSpec line) (rules []) = lineSpec line := by
    cases hline : lineSpec line with
    | error flaw => rfl
    | ok spec =>
      change Except.ok (spec ++ []) = Except.ok spec
      rw [List.append_nil]
  rwa [hfollowed] at hrules

/-- A change of lines that keeps what each decides keeps what all decide. -/
theorem agree_rules_map {f : List Char → List Char} {lines : List (List Char)}
    (h : ∀ line ∈ lines, Agree (lineSpec (f line)) (lineSpec line)) :
    Agree (rules (lines.map f)) (rules lines) := by
  induction lines with
  | nil => exact Agree.refl _
  | cons line lines ih =>
    rw [List.forall_mem_cons] at h
    exact (agree_rules_cons (f line) (lines.map f)).trans
      ((h.1.followed (ih h.2)).trans (agree_rules_cons line lines).symm)

/-! ### Lines -/

/-- What can be a line of a file. -/
structure IsLine (line : List Char) : Prop where
  /-- Something stands on it. -/
  ne_nil : line ≠ []
  /-- It is no comment. -/
  head : line.head? ≠ some '#'
  /-- It does not end with a blank. -/
  getLast : ∀ c ∈ line.getLast?, Lines.isBlank c = false
  /-- It does not go on behind a line end. -/
  breaks : ∀ c ∈ line, Lines.isBreak c = false

theorem isBreak_of_mem_split {text line : List Char} (h : line ∈ Lines.split text) :
    ∀ c ∈ line, Lines.isBreak c = false := by
  fun_induction Lines.split text generalizing line with
  | case1 => cases h
  | case2 cs ih =>
    rcases List.mem_cons.mp h with rfl | h
    · simp
    · exact ih h
  | case3 c cs _ hbreak ih =>
    rcases List.mem_cons.mp h with rfl | h
    · simp
    · exact ih h
  | case4 c cs _ hbreak ih =>
    have hc : Lines.isBreak c = false := by simpa using hbreak
    cases hlines : Lines.split cs with
    | nil =>
      rw [hlines, Separated.consHead, List.mem_singleton] at h
      rw [h]
      simpa using hc
    | cons first others =>
      rw [hlines, Separated.consHead, List.mem_cons] at h
      rcases h with rfl | h
      · rw [List.forall_mem_cons]
        exact ⟨hc, ih (hlines ▸ List.mem_cons_self)⟩
      · exact ih (hlines ▸ List.mem_cons_of_mem first h)

theorem isLine_of_mem_lines {text line : List Char} (h : line ∈ lines text) : IsLine line := by
  rw [lines, List.mem_filter, List.mem_map] at h
  obtain ⟨⟨whole, hwhole, rfl⟩, hcounts⟩ := h
  rw [counts, Bool.and_eq_true, Bool.not_eq_true', List.isEmpty_eq_false_iff] at hcounts
  obtain ⟨hne, hcomment⟩ := hcounts
  refine ⟨hne, ?_, ?_, ?_⟩
  · intro hhead
    obtain ⟨cs, hcs⟩ := List.head?_eq_some_iff.mp hhead
    have hstart : Lines.trimStart ('#' :: cs) = '#' :: cs := rfl
    rw [hcs, hstart] at hcomment
    simp at hcomment
  · intro c hc
    rw [Lines.trimEnd, List.getLast?_reverse] at hc
    have hnot := List.head?_dropWhile_not Lines.isBlank whole.reverse
    rw [hc] at hnot
    simpa using hnot
  · intro c hc
    have hsuffix : Lines.trimEnd whole <+: whole := by
      rw [Lines.trimEnd, ← List.reverse_suffix, List.reverse_reverse]
      exact List.dropWhile_suffix _
    exact isBreak_of_mem_split hwhole c (hsuffix.subset hc)

theorem trimmed_of_getLast {line : List Char} (h : ∀ c ∈ line.getLast?, Lines.isBlank c = false) :
    Pattern.trimmed line = line := by
  rw [Pattern.trimmed]
  split
  · rfl
  · rw [Lines.trimEnd]
    cases hrev : line.reverse with
    | nil => simpa using hrev.symm
    | cons c cs =>
      have hc : Lines.isBlank c = false := h c (by
        rw [← List.head?_reverse, hrev]
        rfl)
      rw [List.dropWhile_cons_of_neg (by simp [hc]), ← hrev, List.reverse_reverse]

/-- The mark that restores, if there is one. -/
def mark : Bool → List Char
  | true => ['!']
  | false => []

theorem suffix_mark_slash (restores : Bool) (pattern : List Char) :
    pattern <:+ mark restores ++ '/' :: pattern :=
  (List.suffix_cons '/' pattern).trans (List.suffix_append _ _)

/-- A line is a pattern behind a mark or without one. -/
theorem exists_mark (line : List Char) : ∃ restores, line = mark restores ++ Pattern.unmarked line ∧
    (restores = false → (Pattern.unmarked line).head? ≠ some '!') := by
  by_cases hhead : line.head? = some '!'
  · obtain ⟨pattern, rfl⟩ := List.head?_eq_some_iff.mp hhead
    exact ⟨true, rfl, by simp⟩
  · have hunmarked : Pattern.unmarked line = line := by
      unfold Pattern.unmarked
      split
      · exact absurd rfl hhead
      · rfl
    rw [hunmarked]
    exact ⟨false, rfl, fun _ => hhead⟩

theorem rebaseLine_mark {restores : Bool} {pattern : List Char}
    (h : restores = false → pattern.head? ≠ some '!') (base : List Char) :
    rebaseLine base (mark restores ++ pattern) = mark restores ++ rebase base pattern := by
  cases restores with
  | true => rfl
  | false =>
    change rebaseLine base pattern = rebase base pattern
    unfold rebaseLine
    split
    · exact absurd rfl (h rfl)
    · rfl

theorem rule_mark {restores : Bool} {pattern : List Char}
    (hlast : ∀ c ∈ (mark restores ++ pattern).getLast?, Lines.isBlank c = false)
    (h : restores = false → pattern ≠ [] ∧ pattern ≠ ['/'] ∧ pattern.head? ≠ some '!' ∧
      pattern.head? ≠ some '#') :
    Pattern.rule (mark restores ++ pattern) = Pattern.ruleOf restores pattern := by
  rw [Pattern.rule, trimmed_of_getLast hlast]
  cases restores with
  | true => simp [mark]
  | false =>
    obtain ⟨hne, hlone, hmark, hcomment⟩ := h rfl
    simp only [mark, List.nil_append, hne, hcomment, hlone, or_self, if_false]
    split
    · exact absurd rfl hmark
    · rfl

/-! ### Slashes in a pattern -/

/-- Without an inner slash a pattern has slashes at the end only. -/
theorem hasInnerSlash_eq_false_iff {pattern : List Char} : hasInnerSlash pattern = false ↔
    ∃ s k, '/' ∉ s ∧ pattern = s ++ List.replicate k '/' := by
  constructor
  · intro h
    rw [hasInnerSlash, List.contains_eq_mem, decide_eq_false_iff_not] at h
    have hslashes : ∀ c ∈ pattern.reverse.takeWhile (· = '/'), c = '/' := by
      intro c hc
      simpa using List.mem_takeWhile_imp hc
    refine ⟨(pattern.reverse.dropWhile (· = '/')).reverse,
      (pattern.reverse.takeWhile (· = '/')).length, by simpa using h, ?_⟩
    calc pattern
        = (pattern.reverse.takeWhile (· = '/') ++ pattern.reverse.dropWhile (· = '/')).reverse := by
          rw [List.takeWhile_append_dropWhile, List.reverse_reverse]
      _ = (pattern.reverse.dropWhile (· = '/')).reverse ++
            (pattern.reverse.takeWhile (· = '/')).reverse := List.reverse_append
      _ = _ := by
          rw [List.eq_replicate_of_mem hslashes, List.reverse_replicate, List.length_replicate]
  · rintro ⟨s, k, hs, rfl⟩
    rw [hasInnerSlash, List.reverse_append, List.reverse_replicate,
      List.dropWhile_append_of_pos (by simp), List.contains_eq_mem, decide_eq_false_iff_not]
    intro hmem
    exact hs (List.mem_reverse.mp ((List.dropWhile_suffix _).subset hmem))

/-- Without an inner slash a pattern is a name, with or without a slash behind it, or it asks for an
empty name. -/
theorem exists_lone {pattern : List Char} (h : hasInnerSlash pattern = false) (hne : pattern ≠ [])
    (hhead : pattern.head? ≠ some '/') : ∃ s, s ≠ [] ∧ '/' ∉ s ∧
      ((pattern = s ∨ pattern = s ++ ['/']) ∨ ['/', '/'] <:+: pattern) := by
  obtain ⟨s, k, hslash, rfl⟩ := hasInnerSlash_eq_false_iff.mp h
  refine ⟨s, ?_, hslash, ?_⟩
  · rintro rfl
    cases k with
    | zero => exact hne rfl
    | succ k => exact hhead rfl
  · match k with
    | 0 => exact .inl (.inl (by simp))
    | 1 => exact .inl (.inr rfl)
    | k + 2 => exact .inr ⟨s, List.replicate k '/', by simp [List.replicate_succ]⟩

/-- A slash in front is dropped. -/
theorem rebase_cons_slash {pattern : List Char} (h : pattern.head? ≠ some '/') (base : List Char) :
    rebase base ('/' :: pattern) = base ++ pattern := by
  change base ++ ('/' :: pattern).dropWhile (· = '/') = base ++ pattern
  cases pattern with
  | nil => rfl
  | cons c cs =>
    have hc : c ≠ '/' := by simpa using h
    simp [hc]

theorem ne_nil_of_hasInnerSlash {pattern : List Char} (h : hasInnerSlash pattern = true) :
    pattern ≠ [] := by
  rintro rfl
  cases h

/-- The segments of a pattern with an inner slash. -/
theorem exists_split_of_hasInnerSlash {pattern : List Char} (h : hasInnerSlash pattern = true)
    (hhead : pattern.head? ≠ some '/') :
    ∃ s rest, Separated.split '/' pattern = s :: rest ∧ s ≠ [] ∧ rest ≠ [] ∧ rest ≠ [[]] := by
  obtain ⟨s, rest, hsplit⟩ := List.exists_cons_of_ne_nil (Separated.split_ne_nil '/' pattern)
  have hjoin := Separated.join_split '/' pattern
  have hslash : '/' ∉ s := Separated.not_mem_of_mem_split (hsplit ▸ List.mem_cons_self)
  rw [hsplit] at hjoin
  refine ⟨s, rest, hsplit, ?_, ?_, ?_⟩
  · rintro rfl
    cases rest with
    | nil =>
      rw [← hjoin] at h
      cases h
    | cons t rest => exact hhead (by rw [← hjoin]; rfl)
  · rintro rfl
    have hinner : hasInnerSlash pattern = false :=
      hasInnerSlash_eq_false_iff.mpr ⟨s, 0, hslash, by rw [← hjoin]; simp⟩
    rw [h] at hinner
    cases hinner
  · rintro rfl
    have hinner : hasInnerSlash pattern = false :=
      hasInnerSlash_eq_false_iff.mpr ⟨s, 1, hslash, by rw [← hjoin]; simp⟩
    rw [h] at hinner
    cases hinner

/-- A second slash inside pins a pattern as well. -/
theorem ruleOf_cons_slash {pattern : List Char} (restores : Bool)
    (h : hasInnerSlash pattern = true) (hhead : pattern.head? ≠ some '/') :
    Pattern.ruleOf restores ('/' :: pattern) = Pattern.ruleOf restores pattern := by
  obtain ⟨s, rest, hsplit, hs, hne, hopen⟩ := exists_split_of_hasInnerSlash h hhead
  have hsegments : Pattern.segments ('/' :: pattern) = Pattern.segments pattern := by
    rw [Pattern.segments, Pattern.segments, Separated.split_cons_sep, hsplit,
      Pattern.anchored_cons hs hne hopen]
    rfl
  have hdirectory : Pattern.isDirectory ('/' :: pattern) = Pattern.isDirectory pattern := by
    rw [Pattern.isDirectory, Pattern.isDirectory, Separated.split_cons_sep, hsplit,
      List.getLast?_cons_cons]
  rw [Pattern.ruleOf, Pattern.ruleOf, hsegments, hdirectory]

/-- A name that nothing pins may as well be written with a gap in front. -/
theorem ruleOf_anyDepth_cons {s pattern : List Char} (restores : Bool) (hne : s ≠ [])
    (hslash : '/' ∉ s) (hpattern : pattern = s ∨ pattern = s ++ ['/']) :
    Pattern.ruleOf restores (Pattern.anyDepth ++ '/' :: pattern) =
      Pattern.ruleOf restores pattern := by
  have hgap : Separated.split '/' Pattern.anyDepth = [Pattern.anyDepth] := rfl
  have hsplit : Separated.split '/' pattern = [s] ∨ Separated.split '/' pattern = [s, []] := by
    rcases hpattern with rfl | rfl
    · exact .inl (Separated.split_of_not_mem hslash)
    · rw [Separated.split_append, Separated.split_of_not_mem hslash]
      exact .inr rfl
  obtain ⟨c, cs, rfl⟩ := List.exists_cons_of_ne_nil hne
  have hsegments : Pattern.segments (Pattern.anyDepth ++ '/' :: pattern) =
      Pattern.segments pattern := by
    rw [Pattern.segments, Pattern.segments, Separated.split_append, hgap]
    by_cases hs : c :: cs = Pattern.anyDepth
    · -- the two gaps are merged
      rw [hs] at hsplit
      rcases hsplit with hsplit | hsplit <;> rw [hsplit] <;> rfl
    · rcases hsplit with hsplit | hsplit
      · have hlone : Pattern.anchored [c :: cs] = [Pattern.anyDepth, c :: cs] := if_neg hs
        rw [hsplit, hlone]
        rfl
      · have hlone : Pattern.anchored [c :: cs, []] = [Pattern.anyDepth, c :: cs, []] := if_neg hs
        rw [hsplit, hlone]
        rfl
  have hdirectory : Pattern.isDirectory (Pattern.anyDepth ++ '/' :: pattern) =
      Pattern.isDirectory pattern := by
    rw [Pattern.isDirectory, Pattern.isDirectory, Separated.split_append, hgap]
    rcases hsplit with hsplit | hsplit <;> rw [hsplit] <;> rfl
  rw [Pattern.ruleOf, Pattern.ruleOf, hsegments, hdirectory]

/-! ### Lines that keep their meaning -/

/-- The lines that mean the same as seen from the root, as far as their slashes tell.  Globs can
make up for the slash in front: `/**` means the same, and is not steady. -/
inductive Steady (line : List Char) : Prop
  /-- There is nothing but slashes. -/
  | hollow : (∀ c ∈ line, c = '/') → Steady line
  /-- No slash stands in front. -/
  | free : Pattern.unmarked line ≠ [] → (Pattern.unmarked line).head? ≠ some '/' → Steady line
  /-- A slash stands in front and another one inside, and behind the first one there is nothing
  that could be taken for the start of a comment or for a mark. -/
  | pinned {pattern : List Char} : Pattern.unmarked line = '/' :: pattern →
      pattern.head? ≠ some '/' → hasInnerSlash pattern = true →
      (line.head? = some '/' → pattern.head? ≠ some '!' ∧ pattern.head? ≠ some '#') → Steady line

variable {line pattern : List Char} {restores : Bool}

/-- What ends like a line does not end with a blank. -/
theorem IsLine.getLast_of_suffix (h : IsLine line) (hsuffix : pattern <:+ line)
    (hne : pattern ≠ []) (front : List Char) :
    ∀ c ∈ (front ++ pattern).getLast?, Lines.isBlank c = false := by
  obtain ⟨before, rfl⟩ := hsuffix
  have hlast := h.getLast
  rw [List.getLast?_append_of_ne_nil _ hne] at hlast ⊢
  exact hlast

/-- The rule of a line. -/
theorem IsLine.rule_eq (h : IsLine (mark restores ++ pattern))
    (hmark : restores = false → pattern.head? ≠ some '!' ∧ pattern ≠ ['/']) :
    Pattern.rule (mark restores ++ pattern) = Pattern.ruleOf restores pattern := by
  refine rule_mark h.getLast ?_
  rintro rfl
  exact ⟨h.ne_nil, (hmark rfl).2, (hmark rfl).1, h.head⟩

theorem IsLine.rule_slash (h : IsLine (mark restores ++ '/' :: pattern)) (hne : pattern ≠ []) :
    Pattern.rule (mark restores ++ '/' :: pattern) = Pattern.ruleOf restores ('/' :: pattern) :=
  h.rule_eq fun _ => ⟨by simp, by simpa using hne⟩

/-- The rule of a line that has lost the slash in front. -/
theorem IsLine.rule_rebased (h : IsLine (mark restores ++ '/' :: pattern)) (hne : pattern ≠ [])
    (hhead : pattern.head? ≠ some '/')
    (hshown : restores = false → pattern.head? ≠ some '!' ∧ pattern.head? ≠ some '#') :
    Pattern.rule (rebaseLine [] (mark restores ++ '/' :: pattern)) =
      Pattern.ruleOf restores pattern := by
  rw [rebaseLine_mark (by simp), rebase_cons_slash hhead, List.nil_append]
  refine rule_mark (h.getLast_of_suffix (suffix_mark_slash _ _) hne _) fun hrestores => ?_
  exact ⟨hne, fun hlone => hhead (by rw [hlone]; rfl), hshown hrestores⟩

theorem rebaseLine_hollow (hne : line ≠ []) (h : ∀ c ∈ line, c = '/') :
    rebaseLine [] line = [] := by
  obtain ⟨c, rest, rfl⟩ := List.exists_cons_of_ne_nil hne
  obtain rfl : c = '/' := h c List.mem_cons_self
  change [] ++ ('/' :: rest).dropWhile (· = '/') = []
  simpa using h

theorem soundness_split_slashes (h : ∀ c ∈ line, c = '/') :
    Pattern.soundness (Separated.split '/' line) = .ok true := by
  induction line with
  | nil => rfl
  | cons c line ih =>
    rw [List.forall_mem_cons] at h
    rw [h.1, Separated.split_cons_sep, Pattern.soundness_nil_cons, ih h.2]

/-- A line of slashes is dropped, and matched no file before. -/
theorem agree_of_hollow (hline : IsLine line) (h : ∀ c ∈ line, c = '/') :
    Agree (lineSpec (rebaseLine [] line)) (lineSpec line) := by
  have hvoid : Pattern.rule [] = .ok .void := rfl
  rw [rebaseLine_hollow hline.ne_nil h]
  obtain ⟨c, rest, rfl⟩ := List.exists_cons_of_ne_nil hline.ne_nil
  obtain rfl : c = '/' := h c List.mem_cons_self
  cases rest with
  | nil => exact Agree.refl _
  | cons d rest =>
    obtain rfl : d = '/' := h d (by simp)
    have hrule : Pattern.rule ('/' :: '/' :: rest) = Pattern.ruleOf false ('/' :: '/' :: rest) :=
      @IsLine.rule_slash _ false hline (List.cons_ne_nil _ _)
    refine agree_lineSpec ?_ ?_
    · intro flaw
      rw [hvoid, hrule, Pattern.ruleOf_eq_error_iff, soundness_split_slashes h]
      simp
    · intro r r' path hr hr' hpath
      rw [hvoid] at hr
      rw [hrule] at hr'
      cases hr
      exact (Pattern.verdict?_of_doubled ⟨[], rest, rfl⟩ hr' hpath).symm

/-- Two patterns that ask for an empty name match no file, and fail alike if their segments do. -/
theorem agree_of_doubled {line' pattern' : List Char}
    (hrule : Pattern.rule line = Pattern.ruleOf restores pattern)
    (hrule' : Pattern.rule line' = Pattern.ruleOf restores pattern')
    (h : ['/', '/'] <:+: pattern) (h' : ['/', '/'] <:+: pattern')
    (hsound : Pattern.soundness (Separated.split '/' pattern) =
      Pattern.soundness (Separated.split '/' pattern')) :
    Agree (lineSpec line) (lineSpec line') := by
  have hne : pattern ≠ [] := by
    rintro rfl
    simp at h
  have hne' : pattern' ≠ [] := by
    rintro rfl
    simp at h'
  refine agree_lineSpec ?_ ?_
  · intro flaw
    rw [hrule, hrule', Pattern.ruleOf_eq_error_iff, Pattern.ruleOf_eq_error_iff, hsound]
    simp [hne, hne']
  · intro r r' path hr hr' hpath
    rw [hrule] at hr
    rw [hrule'] at hr'
    rw [Pattern.verdict?_of_doubled h hr hpath, Pattern.verdict?_of_doubled h' hr' hpath]

/-- A line with no slash in front stays, or gets a gap in front that it had anyway. -/
theorem agree_of_free (hline : IsLine line) (hne : Pattern.unmarked line ≠ [])
    (hhead : (Pattern.unmarked line).head? ≠ some '/') :
    Agree (lineSpec (rebaseLine [] line)) (lineSpec line) := by
  obtain ⟨restores, hmarked, hmark⟩ := exists_mark line
  generalize Pattern.unmarked line = pattern at *
  subst hmarked
  have hrule : Pattern.rule (mark restores ++ pattern) = Pattern.ruleOf restores pattern := by
    refine hline.rule_eq fun hrestores => ⟨hmark hrestores, ?_⟩
    rintro rfl
    exact hhead rfl
  rw [rebaseLine_mark hmark, rebase, if_neg hhead]
  cases hinner : hasInnerSlash pattern with
  | true => exact Agree.refl _
  | false =>
    change Agree (lineSpec (mark restores ++ (Pattern.anyDepth ++ '/' :: pattern))) _
    have hrebased : Pattern.rule (mark restores ++ (Pattern.anyDepth ++ '/' :: pattern)) =
        Pattern.ruleOf restores (Pattern.anyDepth ++ '/' :: pattern) := by
      refine rule_mark ?_ fun _ => ⟨by simp, by simp [Pattern.anyDepth], by simp [Pattern.anyDepth],
        by simp [Pattern.anyDepth]⟩
      have hlast := hline.getLast_of_suffix (List.suffix_append _ pattern) hne
        (mark restores ++ Pattern.anyDepth ++ ['/'])
      simpa using hlast
    obtain ⟨s, hs, hslash, hlone | hdouble⟩ := exists_lone hinner hne hhead
    · rw [lineSpec, hrebased, ruleOf_anyDepth_cons restores hs hslash hlone, ← hrule]
      exact Agree.refl _
    · -- two slashes at the end match no file, with the gap or without it
      refine agree_of_doubled hrebased hrule ?_ hdouble ?_
      · exact hdouble.trans (List.suffix_append (Pattern.anyDepth ++ ['/']) _).isInfix
      · rw [Separated.split_append]
        exact Pattern.soundness_anyDepth_cons _

/-- A line with two slashes loses the one in front, which the other one makes up for. -/
theorem agree_of_pinned (hline : IsLine (mark restores ++ '/' :: pattern))
    (hhead : pattern.head? ≠ some '/') (hinner : hasInnerSlash pattern = true)
    (hshown : restores = false → pattern.head? ≠ some '!' ∧ pattern.head? ≠ some '#') :
    Agree (lineSpec (rebaseLine [] (mark restores ++ '/' :: pattern)))
      (lineSpec (mark restores ++ '/' :: pattern)) := by
  have hne := ne_nil_of_hasInnerSlash hinner
  rw [lineSpec, lineSpec, hline.rule_rebased hne hhead hshown, hline.rule_slash hne,
    ruleOf_cons_slash restores hinner hhead]
  exact Agree.refl _

/-- What the mark has to do with a slash that is pinned. -/
theorem exists_mark_slash (hslash : Pattern.unmarked line = '/' :: pattern)
    (hshown : line.head? = some '/' → pattern.head? ≠ some '!' ∧ pattern.head? ≠ some '#') :
    ∃ restores, line = mark restores ++ '/' :: pattern ∧
      (restores = false → pattern.head? ≠ some '!' ∧ pattern.head? ≠ some '#') := by
  obtain ⟨restores, hmarked, -⟩ := exists_mark line
  rw [hslash] at hmarked
  refine ⟨restores, hmarked, ?_⟩
  rintro rfl
  exact hshown (by rw [hmarked]; rfl)

/-- **A steady line means the same as seen from the root.** -/
theorem Steady.agree (h : Steady line) (hline : IsLine line) :
    Agree (lineSpec (rebaseLine [] line)) (lineSpec line) := by
  cases h with
  | hollow h => exact agree_of_hollow hline h
  | free hne hhead => exact agree_of_free hline hne hhead
  | pinned hslash hhead hinner hshown =>
    obtain ⟨restores, rfl, hmark⟩ := exists_mark_slash hslash hshown
    exact agree_of_pinned hline hhead hinner hmark

end IgnoreFile

/-! ### Files -/

namespace IgnoreSpec

variable {ε : Type} {x x' y y' : Except ε IgnoreSpec} {spec spec' : IgnoreSpec}

/-- Two readings ignore the same files, or fail in the same way. -/
inductive SameMeaning : Except ε IgnoreSpec → Except ε IgnoreSpec → Prop
  | ok {spec spec' : IgnoreSpec} :
      (∀ path : String, "" ∉ SlashPath.steps path → ignores spec path = ignores spec' path) →
      SameMeaning (.ok spec) (.ok spec')
  | error (e : ε) : SameMeaning (.error e) (.error e)

theorem nil_mem_steps_iff {path : String} :
    "" ∈ SlashPath.steps path ↔ [] ∈ Separated.split '/' path.toList := by
  rw [SlashPath.steps, Separated.pieces, List.mem_map]
  constructor
  · rintro ⟨p, hp, hempty⟩
    rw [← String.toList_inj, String.toList_ofList] at hempty
    have hnil : p = [] := hempty
    exact hnil ▸ hp
  · exact fun h => ⟨[], h, rfl⟩

theorem Agree.sameMeaning (h : Agree x y) : SameMeaning x y := by
  cases h with
  | error e => exact .error e
  | ok h =>
    refine .ok fun path hpath => ?_
    rw [ignores, ignores, h path.toList fun hnil => hpath (nil_mem_steps_iff.mpr hnil)]

theorem SameMeaning.verdict?_iff (h : SameMeaning (.ok spec : Except ε IgnoreSpec) (.ok spec'))
    {path : List Char} (hpath : Pattern.IsFilePath path) :
    verdict? spec path = some true ↔ verdict? spec' path = some true := by
  cases h with
  | ok h =>
    have hsame := h (String.ofList path) (by rwa [nil_mem_steps_iff, String.toList_ofList])
    rw [ignores, ignores, String.toList_ofList] at hsame
    exact decide_eq_decide.mp hsame

theorem SameMeaning.congr (h : SameMeaning x y) (hx : Agree x x') (hy : Agree y y') :
    SameMeaning x' y' := by
  cases h with
  | error e =>
    cases hx
    cases hy
    exact .error e
  | ok h =>
    cases hx with
    | ok hx =>
      cases hy with
      | ok hy =>
        refine .ok fun path hpath => ?_
        have hfile : Pattern.IsFilePath path.toList :=
          fun hnil => hpath (nil_mem_steps_iff.mpr hnil)
        rw [ignores, ← hx _ hfile, ← ignores, h path hpath, ignores, hy _ hfile, ← ignores]

theorem SameMeaning.eq_of_error {e e' : ε} (h : SameMeaning (.error e) (.error e')) : e = e' := by
  cases h
  rfl

/-- What is told about a failure does not matter. -/
theorem sameMeaning_mapError_iff {δ : Type} {f : ε → δ} (hf : Function.Injective f) :
    SameMeaning (x.mapError f) (y.mapError f) ↔ SameMeaning x y := by
  constructor
  · intro h
    cases x with
    | error e =>
      cases y with
      | error e' => exact hf h.eq_of_error ▸ .error e
      | ok spec => cases h
    | ok spec =>
      cases y with
      | error e => cases h
      | ok spec' =>
        cases h with
        | ok h => exact .ok h
  · intro h
    cases h with
    | ok h => exact .ok h
    | error e => exact .error (f e)

end IgnoreSpec

namespace IgnoreFile

open IgnoreSpec

/-- The directory of the root needs no way to it. -/
theorem base_self (root : List String) : base root root = [] := by
  rw [base, if_pos (List.prefix_refl root), List.drop_length, if_pos rfl]

/-- The lines of a file, as they are read. -/
theorem read_encode (text : String) (base : Option (List Char)) :
    read (Utf8.encode text) base =
      (rules ((lines text.toList).map (base.elim id rebaseLine))).mapError .malformed := by
  rw [read, Utf8.decode?_eq_some_iff.mpr rfl]
  cases base with
  | none =>
    dsimp only [Option.elim_none]
    rw [List.map_id]
    cases rules (lines text.toList) <;> rfl
  | some base =>
    dsimp only [Option.elim_some]
    cases rules ((lines text.toList).map (rebaseLine base)) <;> rfl

theorem sameMeaning_read_iff (text : String) :
    SameMeaning (read (Utf8.encode text) (some [])) (read (Utf8.encode text) none) ↔
      SameMeaning (rules ((lines text.toList).map (rebaseLine [])))
        (rules (lines text.toList)) := by
  rw [read_encode, read_encode, Option.elim_some, Option.elim_none, List.map_id]
  exact sameMeaning_mapError_iff fun _ _ h => IgnoreError.malformed.inj h

/-- **A file of steady lines means the same as seen from the root.** -/
theorem sameMeaning_of_steady {text : String} (h : ∀ line ∈ lines text.toList, Steady line) :
    SameMeaning (read (Utf8.encode text) (some [])) (read (Utf8.encode text) none) := by
  rw [sameMeaning_read_iff]
  refine (agree_rules_map fun line hline => ?_).sameMeaning
  exact (h line hline).agree (isLine_of_mem_lines hline)

end IgnoreFile
end ScopeIndex
