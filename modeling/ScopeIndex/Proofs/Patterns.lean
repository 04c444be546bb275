import Mathlib
import ScopeIndex.Ignore.Pattern

/-!
# Which lines are no patterns

A segment of a pattern is read character by character.  Here its grammar is written down, with
the pieces that it spells, and with the two ways in which a segment can fall out of it: it ends
in a backslash that escapes nothing, or a bracket in it is not closed.  The first makes a line
unreadable, the second leaves it without effect.

Beyond this a line cannot be read if nothing stands behind the mark that restores, or if all of
its segments can be read and some interval in them ends before it begins.  The normal form of a
pattern does not matter for this: it only adds, drops and replaces segments that are empty or
stand for any number of directories.

## Main definitions

* `Glob.Spells` — the grammar of segments.
* `Glob.Reads` — what reading a segment gives.
* `Pattern.Flawed`, `Pattern.LineFlaw` — what is wrong with a pattern and with a line.

## Main results

* `Glob.pieces_eq_iff` — **the reader of segments follows the grammar.**
* `Pattern.soundness_segments` — the normal form does not matter.
* `Pattern.rule_eq_error_iff` — **a line gives a rule unless it is flawed.**
-/

namespace ScopeIndex

/-! ### Segments -/

namespace Glob

/-- A text between brackets, with whether a mark of negation stands in front and with the
characters that it spells. -/
inductive Inside : List Char → Bool → List Char → Prop
  | plain {c : Char} {cs : List Char} : c ≠ '!' → c ≠ '^' → ']' ∉ cs →
      Inside (c :: cs) false (c :: cs)
  | negated {mark c : Char} {cs : List Char} : mark = '!' ∨ mark = '^' → ']' ∉ cs →
      Inside (mark :: c :: cs) true (c :: cs)

/-- The grammar of a segment, with the pieces that it spells. -/
inductive Spells : List Char → List Piece → Prop
  | nil : Spells [] []
  | ordinary {c : Char} {cs : List Char} {ps : List Piece} : isOrdinary c = true → Spells cs ps →
      Spells (c :: cs) (.char c :: ps)
  | star {cs : List Char} {ps : List Piece} : Spells cs ps → Spells ('*' :: cs) (.run :: ps)
  | question {cs : List Char} {ps : List Piece} : Spells cs ps → Spells ('?' :: cs) (.one :: ps)
  | escaped (c : Char) {cs : List Char} {ps : List Piece} : Spells cs ps →
      Spells ('\\' :: c :: cs) (.char c :: ps)
  | bracket {text content : List Char} {negated : Bool} {cs : List Char} {ps : List Piece} :
      Inside text negated content → Spells cs ps →
      Spells ('[' :: (text ++ ']' :: cs)) (.bracket ⟨negated, Bracket.rangesOf content⟩ :: ps)

/-- What was read since the last piece, by the state that it leads to. -/
inductive Pending : GlobState → List Char → Prop
  | plain : Pending .plain []
  | escaped : Pending .escaped ['\\']
  | opened : Pending .opened ['[']
  | negated {mark : Char} : mark = '!' ∨ mark = '^' → Pending .negated ['[', mark]
  | inside {text content : List Char} {negated : Bool} : Inside text negated content.reverse →
      Pending (.inside negated content) ('[' :: text)

/-- A bracket expression that is not closed, behind its opening bracket. -/
inductive Unclosed : List Char → Prop
  | nothing : Unclosed []
  | mark {mark : Char} : mark = '!' ∨ mark = '^' → Unclosed [mark]
  | inside {text content : List Char} {negated : Bool} : Inside text negated content →
      Unclosed text

/-- What reading a segment gives: its pieces, or the flaw of the first part that is none. -/
inductive Reads : List Char → Except GlobFlaw (List Piece) → Prop
  | pieces {cs : List Char} {ps : List Piece} : Spells cs ps → Reads cs (.ok ps)
  | danglingEscape {cs : List Char} {ps : List Piece} : Spells cs ps →
      Reads (cs ++ ['\\']) (.error .danglingEscape)
  | unclosed {cs text : List Char} {ps : List Piece} : Spells cs ps → Unclosed text →
      Reads (cs ++ '[' :: text) (.error .unclosed)

variable {segment text content : List Char} {negated : Bool} {p : Piece} {ps : List Piece}
  {state : GlobState} {r : Except GlobFlaw (List Piece)}

theorem Inside.concat (h : Inside text negated content) {c : Char} (hc : c ≠ ']') :
    Inside (text ++ [c]) negated (content ++ [c]) := by
  cases h with
  | plain hm hm' hcs => exact .plain hm hm' (by simp [hcs, Ne.symm hc])
  | negated hm hcs => exact .negated hm (by simp [hcs, Ne.symm hc])

/-- One more piece in front. -/
theorem Reads.cons (text : List Char) (hp : ∀ {cs ps}, Spells cs ps → Spells (text ++ cs) (p :: ps))
    (h : Reads segment r) : Reads (text ++ segment) (r.map (p :: ·)) := by
  cases h with
  | pieces h => exact .pieces (hp h)
  | danglingEscape h =>
    rw [← List.append_assoc]
    exact .danglingEscape (hp h)
  | unclosed h hopen =>
    rw [← List.append_assoc]
    exact .unclosed (hp h) hopen

/-- What is pending and what is still to be read make up the segment. -/
theorem reads_piecesFrom (h : Pending state text) :
    Reads (text ++ segment) (piecesFrom state segment) := by
  fun_induction piecesFrom state segment generalizing text with
  | case1 =>
    cases h
    exact .pieces .nil
  | case2 =>
    cases h
    exact .danglingEscape .nil
  | case3 state hplain hescaped =>
    rw [List.append_nil]
    cases h with
    | plain => exact absurd rfl hplain
    | escaped => exact absurd rfl hescaped
    | opened => exact .unclosed .nil .nothing
    | negated hm => exact .unclosed .nil (.mark hm)
    | inside h => exact .unclosed .nil (.inside h)
  | case4 cs ih =>
    cases h
    exact ih .escaped
  | case5 cs _ ih =>
    cases h
    exact ih .opened
  | case6 cs _ _ ih =>
    cases h
    exact Reads.cons ['*'] .star (ih .plain)
  | case7 cs _ _ _ ih =>
    cases h
    exact Reads.cons ['?'] .question (ih .plain)
  | case8 c cs hescape hbracket hstar hquestion ih =>
    cases h
    have hc : isOrdinary c = true := by simp [isOrdinary, hescape, hbracket, hstar, hquestion]
    exact Reads.cons [c] (.ordinary hc) (ih .plain)
  | case9 c cs ih =>
    cases h
    exact Reads.cons ['\\', c] (.escaped c) (ih .plain)
  | case10 c cs hm ih =>
    cases h
    exact ih (.negated hm)
  | case11 c cs hm ih =>
    cases h
    rw [not_or] at hm
    exact ih (.inside (.plain hm.1 hm.2 List.not_mem_nil))
  | case12 c cs ih =>
    cases h with
    | negated hm => exact ih (.inside (.negated hm List.not_mem_nil))
  | case13 negated content cs ih =>
    cases h with
    | @inside text _ _ h =>
      have hclosed := Reads.cons ('[' :: (text ++ [']']))
        (fun {cs ps} (hs : Spells cs ps) => by simpa using Spells.bracket h hs) (ih .plain)
      simpa using hclosed
  | case14 negated content c cs hc ih =>
    cases h with
    | @inside text _ _ h =>
      have hnext := ih (.inside (by simpa using h.concat hc))
      simpa using hnext

/-- Text between brackets is gathered. -/
theorem piecesFrom_inside (h : ']' ∉ text) (negated : Bool) (content rest : List Char) :
    piecesFrom (.inside negated content) (text ++ rest) =
      piecesFrom (.inside negated (text.reverse ++ content)) rest := by
  induction text generalizing content with
  | nil => rfl
  | cons c cs ih =>
    rw [List.mem_cons, not_or] at h
    rw [List.cons_append, piecesFrom, if_neg (Ne.symm h.1), ih h.2, List.reverse_cons,
      List.append_assoc, List.singleton_append]

theorem piecesFrom_opened (h : Inside text negated content) (rest : List Char) :
    piecesFrom .opened (text ++ rest) = piecesFrom (.inside negated content.reverse) rest := by
  cases h with
  | plain hm hm' hcs =>
    rw [List.cons_append, piecesFrom, if_neg (not_or.mpr ⟨hm, hm'⟩), piecesFrom_inside hcs,
      List.reverse_cons]
  | negated hm hcs =>
    rw [List.cons_append, List.cons_append, piecesFrom, if_pos hm, piecesFrom,
      piecesFrom_inside hcs, List.reverse_cons]

/-- A part that is in the grammar gives its pieces, and reading goes on behind it. -/
theorem Spells.piecesFrom_append (h : Spells segment ps) (rest : List Char) :
    piecesFrom .plain (segment ++ rest) = (piecesFrom .plain rest).map (ps ++ ·) := by
  have hmap : ∀ (p : Piece) (ps : List Piece),
      ((piecesFrom .plain rest).map (ps ++ ·)).map (p :: ·) =
        (piecesFrom .plain rest).map ((p :: ps) ++ ·) := by
    intro p ps
    cases piecesFrom .plain rest <;> rfl
  induction h with
  | nil => cases h : piecesFrom .plain rest <;> simp [h, Except.map]
  | ordinary hc _ ih =>
    simp only [isOrdinary, Bool.not_eq_true', List.contains_eq_mem, List.mem_cons, List.not_mem_nil,
      or_false, decide_eq_false_iff_not, not_or] at hc
    rw [List.cons_append, piecesFrom, if_neg hc.1, if_neg hc.2.1, if_neg hc.2.2.1,
      if_neg hc.2.2.2, ih, hmap]
  | star _ ih =>
    rw [List.cons_append, piecesFrom, ih]
    simp [hmap]
  | question _ ih =>
    rw [List.cons_append, piecesFrom, ih]
    simp [hmap]
  | escaped c _ ih =>
    rw [List.cons_append, List.cons_append, piecesFrom, if_pos rfl, piecesFrom, ih, hmap]
  | bracket h _ ih =>
    rw [List.cons_append, List.append_assoc, piecesFrom, if_neg (by decide), if_pos rfl,
      piecesFrom_opened h, List.cons_append, piecesFrom, if_pos rfl, List.reverse_reverse, ih, hmap]

theorem Unclosed.piecesFrom (h : Unclosed text) : piecesFrom .opened text = .error .unclosed := by
  cases h with
  | nothing => rfl
  | mark hm => simp [Glob.piecesFrom, hm]
  | inside h =>
    have hread := piecesFrom_opened h []
    rwa [List.append_nil] at hread

/-- **Reading a segment** gives what the grammar says. -/
theorem pieces_eq_iff : pieces segment = r ↔ Reads segment r := by
  constructor
  · rintro rfl
    exact reads_piecesFrom .plain
  · intro h
    cases h with
    | pieces h =>
      have hread := h.piecesFrom_append []
      simpa [pieces, piecesFrom, Except.map] using hread
    | danglingEscape h =>
      rw [pieces, h.piecesFrom_append]
      rfl
    | unclosed h hopen =>
      rw [pieces, h.piecesFrom_append, piecesFrom, if_neg (by decide), if_pos rfl, hopen.piecesFrom]
      rfl

end Glob

/-! ### Patterns -/

namespace Pattern

/-- A pattern without the mark that restores. -/
def unmarked : List Char → List Char
  | '!' :: rest => rest
  | pattern => pattern

/-- Can a segment be read? -/
def Readable (segment : List Char) : Prop := ∃ ps, Glob.Spells segment ps

/-- What is wrong with a pattern. -/
inductive Flawed (pattern : List Char) : PatternFlaw → Prop
  /-- There is nothing but the mark. -/
  | noSegment : pattern = ['!'] → Flawed pattern .noSegment
  /-- The first segment that cannot be read ends in a backslash that escapes nothing. -/
  | danglingEscape {before after : List (List Char)} {segment : List Char} :
      Separated.split '/' (unmarked pattern) = before ++ (segment ++ ['\\']) :: after →
      (∀ s ∈ segment :: before, Readable s) → Flawed pattern .danglingEscape
  /-- All segments can be read, and one of them has an interval that ends before it begins. -/
  | reversedRange {segment : List Char} {ps : List Piece} {b : Bracket} {range : CharRange} :
      (∀ s ∈ Separated.split '/' (unmarked pattern), Readable s) →
      segment ∈ Separated.split '/' (unmarked pattern) → Glob.Spells segment ps →
      .bracket b ∈ ps → range ∈ b.ranges → range.high < range.low →
      Flawed pattern .reversedRange

/-- Are all sets in the segments well-formed, if the segments can be read? -/
def soundness : List (List Char) → Except GlobFlaw Bool
  | [] => .ok true
  | s :: segments =>
      match Glob.pieces s with
      | .error flaw => .error flaw
      | .ok ps => (soundness segments).map (ps.all Piece.isSound && ·)

variable {segments : List (List Char)} {pattern line : List Char} {flaw : PatternFlaw}

@[simp] theorem soundness_nil_cons (segments : List (List Char)) :
    soundness ([] :: segments) = soundness segments := by
  simp only [soundness, Glob.pieces, Glob.piecesFrom]
  cases soundness segments <;> rfl

@[simp] theorem soundness_anyDepth_cons (segments : List (List Char)) :
    soundness (anyDepth :: segments) = soundness segments := by
  have hpieces : Glob.pieces anyDepth = .ok [.run, .run] := rfl
  rw [soundness, hpieces]
  cases soundness segments <;> rfl

theorem soundness_cons_of_error {s : List Char} {flaw : GlobFlaw} (h : namePieces s = .error flaw) :
    soundness (s :: segments) = .error flaw := by
  unfold namePieces at h
  split at h
  · cases h
  · rw [soundness, h]

theorem soundness_cons_of_ok {s : List Char} {ps : List Piece} (h : namePieces s = .ok ps) :
    soundness (s :: segments) = (soundness segments).map (ps.all Piece.isSound && ·) := by
  unfold namePieces at h
  split at h
  · next hname =>
    have hpieces : Glob.pieces anyName = .ok [.run] := rfl
    cases h
    rw [hname, soundness, hpieces]
    rfl
  · rw [soundness, h]

/-- The pieces of segments are those of the single names, and separators. -/
theorem soundness_piecesFrom (first slash : Bool) (segments : List (List Char)) :
    (piecesFrom first slash segments).map (·.all Piece.isSound) = soundness segments := by
  fun_induction piecesFrom first slash segments with
  | case1 => rfl
  | case2 => rw [soundness_anyDepth_cons]; rfl
  | case3 _ slash s _ =>
    cases h : namePieces s with
    | error flaw => rw [soundness_cons_of_error h]; rfl
    | ok ps =>
      rw [soundness_cons_of_ok h]
      cases slash <;> simp [Except.map, soundness, Piece.isSound]
  | case4 _ t rest ih =>
    rw [soundness_anyDepth_cons, ← ih]
    cases piecesFrom false false (t :: rest) <;> simp [Except.map, Piece.isSound]
  | case5 _ _ t rest _ ih =>
    rw [soundness_anyDepth_cons, ← ih]
    cases piecesFrom false true (t :: rest) <;> simp [Except.map, Piece.isSound]
  | case6 _ _ s t rest _ flaw h => rw [soundness_cons_of_error h]; rfl
  | case7 _ slash s t rest _ ps h ih =>
    rw [soundness_cons_of_ok h, ← ih]
    cases piecesFrom false true (t :: rest) <;> cases slash <;> simp [Except.map, Piece.isSound]

theorem soundness_test (directory : Bool) (segments : List (List Char)) :
    (test directory segments).map isSound = soundness segments := by
  unfold test
  split
  · next h => rw [h, soundness_anyDepth_cons]; cases directory <;> rfl
  split
  · next h => rw [h]; rfl
  split
  · next h => rw [h]; rfl
  · rw [← soundness_piecesFrom true false segments]
    cases piecesFrom true false segments <;> rfl

theorem soundness_anchored (segments : List (List Char)) :
    soundness (anchored segments) = soundness segments := by
  fun_cases anchored segments <;> simp

theorem soundness_opened (segments : List (List Char)) :
    soundness (opened segments) = soundness segments := by
  fun_induction opened segments with
  | case1 => rfl
  | case2 => simp
  | case3 => rfl
  | case4 s segments _ ih => simp only [soundness, ih]

theorem soundness_merged (segments : List (List Char)) :
    soundness (merged segments) = soundness segments := by
  fun_induction merged segments with
  | case1 => rfl
  | case2 => rfl
  | case3 s t rest h ih =>
    obtain ⟨rfl, rfl⟩ := h
    rw [ih, soundness_anyDepth_cons (anyDepth :: rest)]
  | case4 s t rest h ih => simp only [soundness, ih]

/-- The normal form of a pattern adds and removes nothing that could be flawed. -/
theorem soundness_segments (pattern : List Char) :
    soundness (Pattern.segments pattern) = soundness (Separated.split '/' pattern) := by
  rw [Pattern.segments, soundness_merged, soundness_opened, soundness_anchored]

theorem readable_iff {s : List Char} : Readable s ↔ ∃ ps, Glob.pieces s = .ok ps := by
  refine exists_congr fun ps => ?_
  rw [Glob.pieces_eq_iff]
  exact ⟨.pieces, fun h => by cases h; assumption⟩

theorem pieces_eq_danglingEscape_iff {s : List Char} :
    Glob.pieces s = .error .danglingEscape ↔
      ∃ segment, s = segment ++ ['\\'] ∧ Readable segment := by
  rw [Glob.pieces_eq_iff]
  constructor
  · intro h
    cases h with
    | danglingEscape h => exact ⟨_, rfl, _, h⟩
  · rintro ⟨segment, rfl, ps, h⟩
    exact .danglingEscape h

theorem soundness_cons_eq_error_iff {s : List Char} {flaw : GlobFlaw} :
    soundness (s :: segments) = .error flaw ↔
      Glob.pieces s = .error flaw ∨ Readable s ∧ soundness segments = .error flaw := by
  rw [readable_iff, soundness]
  cases Glob.pieces s with
  | error e => simp
  | ok ps => cases soundness segments <;> simp [Except.map]

theorem soundness_eq_danglingEscape_iff : soundness segments = .error .danglingEscape ↔
    ∃ before segment after, segments = before ++ (segment ++ ['\\']) :: after ∧
      ∀ s ∈ segment :: before, Readable s := by
  induction segments with
  | nil => simp [soundness]
  | cons s segments ih =>
    rw [soundness_cons_eq_error_iff, pieces_eq_danglingEscape_iff, ih]
    constructor
    · rintro (⟨segment, rfl, hsegment⟩ | ⟨hs, before, segment, after, rfl, hread⟩)
      · exact ⟨[], segment, segments, rfl, by simpa using hsegment⟩
      · refine ⟨s :: before, segment, after, rfl, ?_⟩
        rw [List.forall_mem_cons] at hread
        exact List.forall_mem_cons.mpr ⟨hread.1, List.forall_mem_cons.mpr ⟨hs, hread.2⟩⟩
    · rintro ⟨before, segment, after, heq, hread⟩
      rw [List.forall_mem_cons] at hread
      cases before with
      | nil =>
        cases heq
        exact .inl ⟨segment, rfl, hread.1⟩
      | cons t before =>
        cases heq
        rw [List.forall_mem_cons] at hread
        exact .inr ⟨hread.2.1, before, segment, after, rfl,
          List.forall_mem_cons.mpr ⟨hread.1, hread.2.2⟩⟩

theorem exists_soundness_iff :
    (∃ sound, soundness segments = .ok sound) ↔ ∀ s ∈ segments, Readable s := by
  induction segments with
  | nil => simp [soundness]
  | cons s segments ih =>
    rw [List.forall_mem_cons, ← ih, readable_iff, soundness]
    cases Glob.pieces s with
    | error e => simp
    | ok ps => cases soundness segments <;> simp [Except.map]

/-- If all segments can be read, one of them may have a set that is not well-formed. -/
theorem soundness_eq_false_iff (h : ∀ s ∈ segments, Readable s) : soundness segments = .ok false ↔
    ∃ s ∈ segments, ∃ ps, Glob.pieces s = .ok ps ∧ ps.all Piece.isSound = false := by
  induction segments with
  | nil => simp [soundness]
  | cons s segments ih =>
    rw [List.forall_mem_cons] at h
    obtain ⟨ps, hps⟩ := readable_iff.mp h.1
    obtain ⟨sound, hsound⟩ := exists_soundness_iff.mpr h.2
    have ih := ih h.2
    rw [hsound, Except.ok.injEq] at ih
    rw [soundness, hps, hsound]
    simp only [Except.map, Except.ok.injEq, Bool.and_eq_false_iff, ih, List.exists_mem_cons_iff,
      hps, exists_eq_left']

theorem all_isSound_eq_false_iff {ps : List Piece} : ps.all Piece.isSound = false ↔
    ∃ b, .bracket b ∈ ps ∧ ∃ range ∈ b.ranges, range.high < range.low := by
  have hpiece : ∀ p : Piece, p.isSound = false ↔
      ∃ b, p = .bracket b ∧ ∃ range ∈ b.ranges, range.high < range.low := by
    intro p
    cases p <;> simp [Piece.isSound, Bracket.isSound]
  simp only [List.all_eq_false, Bool.not_eq_true, hpiece]
  constructor
  · rintro ⟨_, hmem, b, rfl, hrange⟩
    exact ⟨b, hmem, hrange⟩
  · rintro ⟨b, hmem, hrange⟩
    exact ⟨_, hmem, b, rfl, hrange⟩

theorem opened_eq_nil_iff : opened segments = [] ↔ segments = [] := by
  fun_cases opened segments <;> simp

theorem merged_eq_nil_iff : merged segments = [] ↔ segments = [] := by
  fun_induction merged segments <;> simp_all

theorem segments_eq_nil_iff : Pattern.segments pattern = [] ↔ pattern = [] := by
  rw [Pattern.segments, merged_eq_nil_iff, opened_eq_nil_iff]
  constructor
  · intro h
    have hsplit : Separated.split '/' pattern = [[]] := by
      have hne := Separated.split_ne_nil '/' pattern
      revert h hne
      fun_cases anchored (Separated.split '/' pattern) <;> simp_all
    rw [← Separated.join_split '/' pattern, hsplit]
    rfl
  · rintro rfl
    rfl

theorem ruleOf_eq_error_iff (restores : Bool) : ruleOf restores pattern = .error flaw ↔
    pattern = [] ∧ flaw = .noSegment ∨
      soundness (Separated.split '/' pattern) = .error .danglingEscape ∧ flaw = .danglingEscape ∨
      soundness (Separated.split '/' pattern) = .ok false ∧ flaw = .reversedRange := by
  by_cases hnil : pattern = []
  · subst hnil
    have hrule : ruleOf restores [] = .error .noSegment := rfl
    have hsound : soundness (Separated.split '/' []) = .ok true := rfl
    rw [hrule, hsound]
    simp [eq_comm]
  · have hsegments : Pattern.segments pattern ≠ [] := fun h => hnil (segments_eq_nil_iff.mp h)
    have hsound := soundness_test (isDirectory pattern) (Pattern.segments pattern)
    rw [soundness_segments] at hsound
    rw [← hsound, ruleOf, if_neg hsegments]
    cases test (isDirectory pattern) (Pattern.segments pattern) with
    | error e => cases e <;> simp [hnil, Except.map, eq_comm]
    | ok test => cases h : isSound test <;> simp [hnil, Except.map, h, eq_comm]

/-- The flaws of a pattern, as they are found. -/
theorem flawed_iff : Flawed pattern flaw ↔
    pattern = ['!'] ∧ flaw = .noSegment ∨
      soundness (Separated.split '/' (unmarked pattern)) = .error .danglingEscape ∧
        flaw = .danglingEscape ∨
      soundness (Separated.split '/' (unmarked pattern)) = .ok false ∧ flaw = .reversedRange := by
  rw [soundness_eq_danglingEscape_iff]
  constructor
  · intro hflawed
    cases hflawed with
    | noSegment hmark => exact .inl ⟨hmark, rfl⟩
    | danglingEscape hsplit hread => exact .inr (.inl ⟨⟨_, _, _, hsplit, hread⟩, rfl⟩)
    | reversedRange hread hs hspells hb hrange hlt =>
      refine .inr (.inr ⟨(soundness_eq_false_iff hread).mpr ?_, rfl⟩)
      exact ⟨_, hs, _, Glob.pieces_eq_iff.mpr (.pieces hspells),
        all_isSound_eq_false_iff.mpr ⟨_, hb, _, hrange, hlt⟩⟩
  · rintro (⟨hmark, rfl⟩ | ⟨⟨before, segment, after, hsplit, hread⟩, rfl⟩ | ⟨hsound, rfl⟩)
    · exact .noSegment hmark
    · exact .danglingEscape hsplit hread
    · have hread := exists_soundness_iff.mp ⟨_, hsound⟩
      obtain ⟨s, hs, ps, hps, hall⟩ := (soundness_eq_false_iff hread).mp hsound
      obtain ⟨b, hb, range, hrange, hlt⟩ := all_isSound_eq_false_iff.mp hall
      cases Glob.pieces_eq_iff.mp hps with
      | pieces hspells => exact .reversedRange hread hs hspells hb hrange hlt

/-- What is wrong with a line. -/
@[mk_iff] structure LineFlaw (line : List Char) (flaw : PatternFlaw) : Prop where
  /-- The line is no comment. -/
  counts : (trimmed line).head? ≠ some '#'
  /-- Its pattern is flawed. -/
  flawed : Flawed (trimmed line) flaw

/-- **A line gives a rule unless it is flawed.** -/
theorem rule_eq_error_iff : rule line = .error flaw ↔ LineFlaw line flaw := by
  rw [lineFlaw_iff, flawed_iff]
  unfold rule
  generalize trimmed line = pattern
  have hsound : ∀ pattern : List Char, pattern = [] ∨ pattern = ['/'] →
      soundness (Separated.split '/' (unmarked pattern)) = .ok true := by
    rintro pattern (rfl | rfl) <;> rfl
  by_cases hvoid : pattern = [] ∨ pattern = ['/']
  · have hmark : pattern ≠ ['!'] := by rintro rfl; simp at hvoid
    rw [hsound pattern hvoid, if_pos (hvoid.imp id .inr)]
    simp [hmark]
  by_cases hcomment : pattern.head? = some '#'
  · rw [if_pos (.inr (.inl hcomment))]
    simp [hcomment]
  · rw [not_or] at hvoid
    rw [if_neg (by simp [hvoid, hcomment])]
    simp only [ne_eq, hcomment, not_false_eq_true, true_and]
    split
    · rw [ruleOf_eq_error_iff]
      simp [unmarked]
    · next hmark =>
      have hunmarked : unmarked pattern = pattern := by
        unfold unmarked
        split
        · next rest => exact absurd rfl (hmark rest)
        · rfl
      have hlone : pattern ≠ ['!'] := hmark []
      rw [ruleOf_eq_error_iff, hunmarked]
      simp [hvoid, hlone]

example : rule ['a', '\\'] = .error .danglingEscape := by decide

-- a bracket that is not closed comes first, so the backslash behind it does no harm
example : rule ['[', 'a', '/', 'b', '\\'] = .ok .void := by decide

end Pattern
end ScopeIndex
