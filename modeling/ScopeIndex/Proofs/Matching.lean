import Mathlib
import ScopeIndex.Proofs.Patterns
import ScopeIndex.Proofs.Separators

/-!
# Which paths a pattern matches

Pieces are matched one after the other, and each leaves an end of the path.  So a list of pieces
that matches leaves an end of the path to every part of it.

The rules of two kinds of patterns can be told without matching.  The path of a file has no empty
name, so a pattern that asks for one, with two slashes next to each other, matches no file.  And a
pattern of ordinary characters matches what starts like it, at the top or behind a slash.

## Main definitions

* `Pattern.IsFilePath` — a path without an empty name.

## Main results

* `Piece.matchesStart_map_char_iff`, `Piece.exists_suffix_of_append` — matching in parts.
* `Pattern.verdict?_of_doubled` — **a pattern with two slashes next to each other matches no file.**
* `Pattern.ruleOf_pinned`, `Pattern.ruleOf_floating` — the rules of ordinary patterns.
-/

namespace ScopeIndex

/-! ### Matching in parts -/

namespace Piece

variable {p : Piece} {ps qs : List Piece} {cs rest : List Char}

theorem suffix_of_mem_nameRests (h : rest ∈ nameRests cs) : rest <:+ cs := by
  induction cs with
  | nil => simp_all [nameRests]
  | cons c cs ih =>
    rw [nameRests, List.mem_cons] at h
    rcases h with rfl | h
    · exact List.suffix_rfl
    · split at h
      · cases h
      · exact (ih h).trans (List.suffix_cons c cs)

theorem suffix_of_mem_lineRests (h : rest ∈ lineRests cs) : rest <:+ cs := by
  induction cs with
  | nil => cases h
  | cons c cs ih =>
    rw [lineRests] at h
    split at h
    · cases h
    · rcases List.mem_cons.mp h with rfl | h
      · exact List.suffix_cons c rest
      · exact (ih h).trans (List.suffix_cons c cs)

theorem suffix_of_mem_headRests {test : Char → Bool} (h : rest ∈ headRests test cs) :
    rest <:+ cs := by
  cases cs with
  | nil => cases h
  | cons c cs =>
    rw [headRests] at h
    split at h
    · rw [List.mem_singleton.mp h]
      exact List.suffix_cons c cs
    · cases h

theorem afterSlash?_eq_some_iff : afterSlash? cs = some rest ↔ cs = '/' :: rest := by
  unfold afterSlash?
  split <;> simp_all

/-- What `above` leaves: all, or what is behind a slash. -/
theorem mem_rests_above (h : rest ∈ above.rests cs) : rest = cs ∨ '/' :: rest <:+ cs := by
  rw [rests, List.mem_cons, List.mem_filterMap] at h
  refine h.imp_right ?_
  rintro ⟨behind, hbehind, hslash⟩
  rw [afterSlash?_eq_some_iff] at hslash
  exact hslash ▸ suffix_of_mem_lineRests hbehind

theorem mem_lineRests_append {ds : List Char} (hne : ds ≠ []) (h : '\n' ∉ ds) (cs : List Char) :
    cs ∈ lineRests (ds ++ cs) := by
  induction ds with
  | nil => exact absurd rfl hne
  | cons d ds ih =>
    rw [List.mem_cons, not_or] at h
    rw [List.cons_append, lineRests, if_neg (Ne.symm h.1), List.mem_cons]
    by_cases hds : ds = []
    · exact .inl (by rw [hds, List.nil_append])
    · exact .inr (ih hds h.2)

/-- `above` takes any directory off the path. -/
theorem mem_rests_above_append {ds : List Char} (hne : ds ≠ []) (h : '\n' ∉ ds) (cs : List Char) :
    cs ∈ above.rests (ds ++ '/' :: cs) := by
  rw [rests, List.mem_cons, List.mem_filterMap]
  exact .inr ⟨'/' :: cs, mem_lineRests_append hne h _, rfl⟩

/-- What `between` leaves: all, or something of what is behind a first slash. -/
theorem mem_rests_between (h : rest ∈ between.rests cs) :
    rest = cs ∨ ∃ ds, cs = '/' :: ds ∧ rest <:+ ds := by
  rw [rests, List.mem_cons] at h
  refine h.imp_right fun h => ?_
  cases hslash : afterSlash? cs with
  | none => simp [hslash] at h
  | some ds =>
    rw [hslash] at h
    exact ⟨ds, afterSlash?_eq_some_iff.mp hslash, suffix_of_mem_lineRests h⟩

/-- A piece leaves an end of the path. -/
theorem suffix_of_mem_rests (h : rest ∈ p.rests cs) : rest <:+ cs := by
  cases p with
  | char c => exact suffix_of_mem_headRests h
  | one => exact suffix_of_mem_headRests h
  | run => exact suffix_of_mem_nameRests h
  | fill =>
    obtain ⟨ds, hds, h⟩ := List.mem_flatMap.mp h
    exact (suffix_of_mem_nameRests h).trans (suffix_of_mem_headRests hds)
  | bracket b => exact suffix_of_mem_headRests h
  | above =>
    rcases mem_rests_above h with rfl | h
    · exact List.suffix_rfl
    · exact (List.suffix_cons '/' rest).trans h
  | between =>
    rcases mem_rests_between h with rfl | ⟨ds, rfl, hrest⟩
    · exact List.suffix_rfl
    · exact hrest.trans (List.suffix_cons '/' ds)
  | close =>
    rw [rests] at h
    split at h
    · rw [List.mem_singleton.mp h]
    · rw [Option.mem_toList, afterSlash?_eq_some_iff] at h
      exact h ▸ List.suffix_cons '/' rest

/-- What comes behind other pieces is matched against an end of the path. -/
theorem exists_suffix_of_append (h : matchesStart (ps ++ qs) cs = true) :
    ∃ rest, rest <:+ cs ∧ matchesStart qs rest = true := by
  induction ps generalizing cs with
  | nil => exact ⟨cs, List.suffix_rfl, h⟩
  | cons p ps ih =>
    rw [List.cons_append, matchesStart_cons, List.any_eq_true] at h
    obtain ⟨left, hleft, h⟩ := h
    obtain ⟨rest, hrest, h⟩ := ih h
    exact ⟨rest, hrest.trans (suffix_of_mem_rests hleft), h⟩

/-- Characters take themselves off the path. -/
theorem matchesStart_map_char_iff {s : List Char} : matchesStart (s.map .char ++ ps) cs = true ↔
    ∃ rest, cs = s ++ rest ∧ matchesStart ps rest = true := by
  constructor
  · intro h
    induction s generalizing cs with
    | nil => exact ⟨cs, rfl, h⟩
    | cons d s ih =>
      rw [List.map_cons, List.cons_append] at h
      cases cs with
      | nil => simp [rests, headRests] at h
      | cons c cs =>
        rw [matchesStart_char_cons, Bool.and_eq_true, beq_iff_eq] at h
        obtain ⟨rest, rfl, hrest⟩ := ih h.2
        exact ⟨rest, by rw [h.1, List.cons_append], hrest⟩
  · rintro ⟨rest, rfl, h⟩
    rwa [matchesStart_map_char]

/-- What comes behind other pieces may be replaced by what asks for less. -/
theorem matchesStart_append_mono {qs' : List Piece}
    (h : ∀ rest, matchesStart qs rest = true → matchesStart qs' rest = true)
    (hm : matchesStart (ps ++ qs) cs = true) : matchesStart (ps ++ qs') cs = true := by
  induction ps generalizing cs with
  | nil => exact h cs hm
  | cons p ps ih =>
    rw [List.cons_append, matchesStart_cons, List.any_eq_true] at hm ⊢
    obtain ⟨left, hleft, hm⟩ := hm
    exact ⟨left, hleft, ih hm⟩

end Piece

/-! ### Patterns that ask for an empty name -/

theorem exists_of_map_eq_ok {α β ε : Type} {f : α → β} {x : Except ε α} {y : β}
    (h : x.map f = .ok y) : ∃ a, x = .ok a ∧ y = f a := by
  cases x with
  | error e => cases h
  | ok a => exact ⟨a, rfl, (Except.ok.inj h).symm⟩

namespace Pattern

variable {first slash : Bool} {s t : List Char} {segments : List (List Char)} {ps : List Piece}
  {cs : List Char}

/-- The pieces of a name with others behind it. -/
theorem piecesFrom_cons_cons (hs : s ≠ anyDepth) (rest : List (List Char))
    (h : piecesFrom first slash (s :: t :: rest) = .ok ps) :
    ∃ name others, namePieces s = .ok name ∧ piecesFrom false true (t :: rest) = .ok others ∧
      ps = (if slash then [.char '/'] else []) ++ name ++ others := by
  rw [piecesFrom, if_neg hs] at h
  cases hname : namePieces s with
  | error flaw =>
    rw [hname] at h
    cases h
  | ok name =>
    rw [hname] at h
    obtain ⟨others, hothers, rfl⟩ := exists_of_map_eq_ok h
    exact ⟨name, others, rfl, hothers, rfl⟩

/-- The pieces of a gap of any depth with others behind it. -/
theorem piecesFrom_anyDepth_cons (rest : List (List Char))
    (h : piecesFrom first slash (anyDepth :: t :: rest) = .ok ps) :
    ∃ others, piecesFrom false (!first) (t :: rest) = .ok others ∧
      ps = (if first then .above else .between) :: others := by
  rw [piecesFrom, if_pos rfl] at h
  cases first with
  | false => exact exists_of_map_eq_ok h
  | true => exact exists_of_map_eq_ok h

/-- Behind a first segment the others need a slash, except behind a gap at the top. -/
theorem exists_piecesFrom_tail (rest : List (List Char)) (hfirst : first = true → s ≠ anyDepth)
    (h : piecesFrom first slash (s :: t :: rest) = .ok ps) :
    ∃ front others, piecesFrom false true (t :: rest) = .ok others ∧ ps = front ++ others := by
  by_cases hs : s = anyDepth
  · subst hs
    have hnot : first = false := by simpa using hfirst
    subst hnot
    obtain ⟨others, hothers, rfl⟩ := piecesFrom_anyDepth_cons rest h
    exact ⟨[.between], others, hothers, rfl⟩
  · obtain ⟨name, others, -, hothers, rfl⟩ := piecesFrom_cons_cons hs rest h
    exact ⟨_, others, hothers, rfl⟩

theorem head?_of_matchesStart_char {c : Char}
    (h : Piece.matchesStart (.char c :: ps) cs = true) : cs.head? = some c := by
  have hchar : Piece.matchesStart ([c].map .char ++ ps) cs = true := h
  obtain ⟨rest, rfl, -⟩ := Piece.matchesStart_map_char_iff.mp hchar
  rfl

/-- Segments that need a slash in front match nothing without one. -/
theorem head?_of_matchesStart (h : piecesFrom false true segments = .ok ps)
    (hne : segments ≠ []) (hm : Piece.matchesStart ps cs = true) : cs.head? = some '/' := by
  induction segments generalizing ps cs with
  | nil => exact absurd rfl hne
  | cons s segments ih =>
    cases segments with
    | nil =>
      rw [piecesFrom] at h
      split at h
      · cases h
        exact head?_of_matchesStart_char hm
      · obtain ⟨name, -, rfl⟩ := exists_of_map_eq_ok h
        exact head?_of_matchesStart_char hm
    | cons t rest =>
      by_cases hs : s = anyDepth
      · subst hs
        obtain ⟨others, hothers, rfl⟩ := piecesFrom_anyDepth_cons rest h
        rw [Piece.matchesStart_cons, List.any_eq_true] at hm
        obtain ⟨left, hleft, hm⟩ := hm
        rcases Piece.mem_rests_between hleft with rfl | ⟨ds, rfl, -⟩
        · exact ih hothers (List.cons_ne_nil t rest) hm
        · rfl
      · obtain ⟨name, others, -, -, rfl⟩ := piecesFrom_cons_cons hs rest h
        exact head?_of_matchesStart_char hm

/-- An empty segment behind a slash makes for two slashes next to each other. -/
theorem infix_of_matchesStart (h : piecesFrom false true segments = .ok ps)
    (hempty : [] ∈ segments.dropLast) (hm : Piece.matchesStart ps cs = true) :
    ['/', '/'] <:+: cs := by
  induction segments generalizing ps cs with
  | nil => cases hempty
  | cons s segments ih =>
    cases segments with
    | nil => cases hempty
    | cons t rest =>
      rw [List.dropLast_cons_cons, List.mem_cons] at hempty
      rcases hempty with rfl | hempty
      · obtain ⟨name, others, hname, hothers, rfl⟩ := piecesFrom_cons_cons (by decide) rest h
        cases hname
        have hslash : Piece.matchesStart (['/'].map .char ++ others) cs = true := hm
        obtain ⟨behind, rfl, hbehind⟩ := Piece.matchesStart_map_char_iff.mp hslash
        obtain ⟨ds, rfl⟩ := List.head?_eq_some_iff.mp
          (head?_of_matchesStart hothers (List.cons_ne_nil t rest) hbehind)
        exact ⟨[], ds, rfl⟩
      · obtain ⟨front, others, hothers, rfl⟩ := exists_piecesFrom_tail rest (by simp) h
        obtain ⟨behind, hbehind, hm⟩ := Piece.exists_suffix_of_append hm
        exact (ih hothers hempty hm).trans hbehind.isInfix

/-- An empty segment at the start of a path makes for a slash there. -/
theorem slash_of_matchesStart (rest : List (List Char)) (hfirst : first = true → s ≠ anyDepth)
    (h : piecesFrom first false (s :: t :: rest) = .ok ps)
    (hempty : [] ∈ (s :: t :: rest).dropLast) (hm : Piece.matchesStart ps cs = true) :
    cs.head? = some '/' ∨ ['/', '/'] <:+: cs := by
  rw [List.dropLast_cons_cons, List.mem_cons] at hempty
  rcases hempty with rfl | hempty
  · obtain ⟨name, others, hname, hothers, rfl⟩ := piecesFrom_cons_cons (by decide) rest h
    cases hname
    exact .inl (head?_of_matchesStart hothers (List.cons_ne_nil t rest) hm)
  · obtain ⟨front, others, hothers, rfl⟩ := exists_piecesFrom_tail rest hfirst h
    obtain ⟨behind, hbehind, hm⟩ := Piece.exists_suffix_of_append hm
    exact .inr ((infix_of_matchesStart hothers hempty hm).trans hbehind.isInfix)

/-- The path of a file: no name on it is empty. -/
def IsFilePath (path : List Char) : Prop := [] ∉ Separated.split '/' path

/-- An empty segment, unless it is the last, matches no file. -/
theorem matchesStart_of_nil_mem (h : piecesFrom true false segments = .ok ps)
    (hempty : [] ∈ segments.dropLast) (hpath : IsFilePath cs) :
    Piece.matchesStart ps cs = false := by
  have hslash : ¬ (cs.head? = some '/' ∨ ['/', '/'] <:+: cs) := by
    rintro (hhead | hdouble)
    · exact hpath (Separated.nil_mem_split_iff.mpr (.inr (.inl hhead)))
    · exact hpath (Separated.nil_mem_split_iff.mpr (.inr (.inr (.inr hdouble))))
  rw [Bool.eq_false_iff]
  intro hm
  match segments, h, hempty with
  | s :: t :: rest, h, hempty =>
    by_cases hs : s = anyDepth
    · -- behind a gap at the top stands all of the path, or what is behind a slash
      subst hs
      obtain ⟨others, hothers, rfl⟩ := piecesFrom_anyDepth_cons rest h
      rw [Piece.matchesStart_cons, List.any_eq_true] at hm
      obtain ⟨left, hleft, hm⟩ := hm
      rw [List.dropLast_cons_cons, List.mem_cons] at hempty
      have hempty := hempty.resolve_left (by decide)
      match rest, hothers, hempty with
      | u :: rest, hothers, hempty =>
        have hleftSlash := slash_of_matchesStart rest (by simp) hothers hempty hm
        rcases Piece.mem_rests_above hleft with rfl | hbehind
        · exact hslash hleftSlash
        · rcases hleftSlash with hhead | hdouble
          · obtain ⟨ds, rfl⟩ := List.head?_eq_some_iff.mp hhead
            exact hslash (.inr (List.IsInfix.trans ⟨[], ds, rfl⟩ hbehind.isInfix))
          · exact hslash (.inr
              (hdouble.trans ((List.suffix_cons '/' left).trans hbehind).isInfix))
    · exact hslash (slash_of_matchesStart rest (fun _ => hs) h hempty hm)

/-! ### Two slashes next to each other -/

theorem dropLast_opened (segments : List (List Char)) :
    (opened segments).dropLast = segments.dropLast := by
  fun_induction opened segments with
  | case1 => rfl
  | case2 => rfl
  | case3 => rfl
  | case4 s segments hne ih =>
    have hopened : opened segments ≠ [] := opened_eq_nil_iff.not.mpr hne
    rw [List.dropLast_cons_of_ne_nil hopened, ih, List.dropLast_cons_of_ne_nil hne]

theorem nil_mem_dropLast_merged (h : [] ∈ segments.dropLast) : [] ∈ (merged segments).dropLast := by
  fun_induction merged segments with
  | case1 => exact h
  | case2 => exact h
  | case3 s t rest hgap ih =>
    obtain ⟨rfl, rfl⟩ := hgap
    rw [List.dropLast_cons_cons, List.mem_cons] at h
    exact ih (h.resolve_left (by decide))
  | case4 s t rest hgap ih =>
    have hmerged : merged (t :: rest) ≠ [] :=
      merged_eq_nil_iff.not.mpr (List.cons_ne_nil t rest)
    rw [List.dropLast_cons_cons, List.mem_cons] at h
    rw [List.dropLast_cons_of_ne_nil hmerged, List.mem_cons]
    exact h.imp_right ih

/-- A slash inside a pattern pins it to the top. -/
theorem anchored_cons {rest : List (List Char)} (hs : s ≠ []) (hne : rest ≠ [])
    (hopen : rest ≠ [[]]) : anchored (s :: rest) = s :: rest := by
  match s, rest with
  | c :: cs, [t] =>
    cases t with
    | nil => exact absurd rfl hopen
    | cons => rfl
  | c :: cs, t :: u :: rest => cases t <;> rfl

/-- An empty segment that is neither the first nor the last stays. -/
theorem nil_mem_dropLast_anchored {rest : List (List Char)} (h : [] ∈ rest.dropLast) :
    [] ∈ (anchored (s :: rest)).dropLast := by
  cases s with
  | nil => exact h
  | cons c cs =>
    have hne : rest ≠ [] := by
      rintro rfl
      cases h
    have hopen : rest ≠ [[]] := by
      rintro rfl
      cases h
    rw [anchored_cons (List.cons_ne_nil c cs) hne hopen, List.dropLast_cons_of_ne_nil hne]
    exact List.mem_cons_of_mem _ h

/-- Two slashes next to each other ask for an empty name. -/
theorem nil_mem_dropLast_segments {pattern : List Char} (h : ['/', '/'] <:+: pattern) :
    [] ∈ (Pattern.segments pattern).dropLast := by
  obtain ⟨before, after, rfl⟩ := h
  obtain ⟨s, ss, hs⟩ := List.exists_cons_of_ne_nil (Separated.split_ne_nil '/' before)
  obtain ⟨t, ts, ht⟩ := List.exists_cons_of_ne_nil (Separated.split_ne_nil '/' after)
  have hsplit : Separated.split '/' (before ++ ['/', '/'] ++ after) =
      s :: (ss ++ [] :: t :: ts) := by
    rw [List.append_assoc, List.cons_append, Separated.split_append, hs, List.cons_append,
      List.singleton_append, Separated.split_cons_sep, ht]
  rw [Pattern.segments, hsplit]
  refine nil_mem_dropLast_merged ?_
  rw [dropLast_opened]
  exact nil_mem_dropLast_anchored (by simp)

/-- One segment of another kind, and the test is by pieces. -/
theorem test_of_mem (directory : Bool) (hs : s ∈ segments) (hdepth : s ≠ anyDepth)
    (hname : s ≠ anyName) :
    test directory segments = (piecesFrom true false segments).map .pieces := by
  rw [test, if_neg, if_neg, if_neg]
  all_goals
    rintro rfl
    simp [hdepth, hname] at hs

/-- If the test of a pattern is by pieces, these match what its rule decides about. -/
theorem exists_pieces_of_verdict? {restores : Bool} {pattern path : List Char} {r : IgnoreRule}
    (htest : test (isDirectory pattern) (Pattern.segments pattern) =
      (piecesFrom true false (Pattern.segments pattern)).map .pieces)
    (hrule : ruleOf restores pattern = .ok r) (hverdict : r.verdict? path ≠ none) :
    ∃ ps, piecesFrom true false (Pattern.segments pattern) = .ok ps ∧
      Piece.matchesStart ps path = true := by
  unfold ruleOf at hrule
  dsimp only at hrule
  split at hrule
  · cases hrule
  rw [htest] at hrule
  cases hpieces : piecesFrom true false (Pattern.segments pattern) with
  | error flaw =>
    rw [hpieces] at hrule
    cases flaw with
    | danglingEscape => cases hrule
    | unclosed =>
      cases hrule
      exact absurd rfl hverdict
  | ok ps =>
    rw [hpieces] at hrule
    simp only [Except.map] at hrule
    split at hrule
    · cases hrule
      refine ⟨ps, rfl, ?_⟩
      by_contra hmatches
      exact hverdict (if_neg hmatches)
    · cases hrule

/-- **A pattern with two slashes next to each other matches no file.** -/
theorem verdict?_of_doubled {restores : Bool} {pattern path : List Char} {r : IgnoreRule}
    (h : ['/', '/'] <:+: pattern) (hrule : ruleOf restores pattern = .ok r)
    (hpath : IsFilePath path) : r.verdict? path = none := by
  have hempty := nil_mem_dropLast_segments h
  have htest := test_of_mem (isDirectory pattern) (List.mem_of_mem_dropLast hempty) (by decide)
    (by decide)
  by_contra hverdict
  obtain ⟨ps, hpieces, hmatches⟩ := exists_pieces_of_verdict? htest hrule hverdict
  rw [matchesStart_of_nil_mem hpieces hempty hpath] at hmatches
  cases hmatches

/-! ### Patterns of ordinary characters -/

theorem ne_anyDepth_of_isOrdinary (h : ∀ c ∈ s, Glob.isOrdinary c) : s ≠ anyDepth := by
  rintro rfl
  exact absurd (h '*' (by decide)) (by decide)

theorem ne_anyName_of_isOrdinary (h : ∀ c ∈ s, Glob.isOrdinary c) : s ≠ anyName := by
  rintro rfl
  exact absurd (h '*' (by decide)) (by decide)

theorem namePieces_of_isOrdinary (h : ∀ c ∈ s, Glob.isOrdinary c) :
    namePieces s = .ok (s.map .char) := by
  rw [namePieces, if_neg (ne_anyName_of_isOrdinary h), Glob.pieces_of_isOrdinary h]

/-- What ends the pieces of segments: a slash that is there does. -/
def ending (segments : List (List Char)) : List Piece :=
  if segments.getLast? = some [] then [] else [.close]

/-- The pieces of ordinary segments are their characters. -/
theorem piecesFrom_opened (hne : segments ≠ []) (hslash : slash = true ∨ segments ≠ [[]])
    (h : ∀ s ∈ segments, ∀ c ∈ s, Glob.isOrdinary c) :
    piecesFrom first slash (opened segments) =
      .ok ((if slash then [.char '/'] else []) ++ (Separated.join '/' segments).map .char ++
        ending segments) := by
  induction segments generalizing first slash with
  | nil => exact absurd rfl hne
  | cons s segments ih =>
    rw [List.forall_mem_cons] at h
    have hname := namePieces_of_isOrdinary h.1
    cases segments with
    | nil =>
      by_cases hs : s = []
      · subst hs
        obtain rfl : slash = true := hslash.resolve_right (fun hne => hne rfl)
        rfl
      · rw [opened, if_neg hs, piecesFrom, if_neg (ne_anyDepth_of_isOrdinary h.1), hname]
        simp [ending, hs, Except.map]
    | cons t rest =>
      have ih := @ih false true (List.cons_ne_nil t rest) (.inl rfl) h.2
      have hopened : opened (s :: t :: rest) = s :: opened (t :: rest) := rfl
      obtain ⟨u, us, hus⟩ := List.exists_cons_of_ne_nil
        (opened_eq_nil_iff.not.mpr (List.cons_ne_nil t rest))
      have hending : ending (s :: t :: rest) = ending (t :: rest) := rfl
      rw [hus] at ih
      rw [hopened, hus, piecesFrom, if_neg (ne_anyDepth_of_isOrdinary h.1), hname]
      simp only [ih, Except.map, hending, Separated.join_cons_cons]
      simp

theorem merged_opened (h : ∀ s ∈ segments, s ≠ anyDepth) :
    merged (opened segments) = opened segments := by
  induction segments with
  | nil => rfl
  | cons s segments ih =>
    rw [List.forall_mem_cons] at h
    cases segments with
    | nil => by_cases hs : s = [] <;> simp [opened, hs, merged]
    | cons t rest =>
      obtain ⟨u, us, hus⟩ := List.exists_cons_of_ne_nil
        (opened_eq_nil_iff.not.mpr (List.cons_ne_nil t rest))
      have ih := ih h.2
      have hopened : opened (s :: t :: rest) = s :: opened (t :: rest) := rfl
      rw [hus] at ih
      rw [hopened, hus, merged, if_neg (fun hgap => h.1 hgap.1), ih]

/-- The rule of a pattern whose segments give sound pieces. -/
theorem ruleOf_of_piecesFrom (restores : Bool) {pattern : List Char}
    (hs : s ∈ Pattern.segments pattern) (hdepth : s ≠ anyDepth) (hname : s ≠ anyName)
    (h : piecesFrom true false (Pattern.segments pattern) = .ok ps)
    (hsound : ∀ p ∈ ps, p.isSound = true) :
    ruleOf restores pattern = .ok (.active restores (.pieces ps)) := by
  have hall : isSound (.pieces ps) = true := List.all_eq_true.mpr hsound
  rw [ruleOf, if_neg (List.ne_nil_of_mem hs), test_of_mem _ hs hdepth hname, h]
  simp only [Except.map, hall, if_true]

theorem isSound_of_mem_ordinary {p : Piece} (h : p ∈ s.map .char ++ ending segments) :
    p.isSound = true := by
  rw [List.mem_append, List.mem_map] at h
  rcases h with ⟨c, -, rfl⟩ | h
  · rfl
  · rw [ending] at h
    split at h
    · cases h
    · rw [List.mem_singleton.mp h]
      rfl

section Ordinary

variable {pattern : List Char}

theorem split_ne_singleton_nil (h : pattern ≠ []) : Separated.split '/' pattern ≠ [[]] := by
  intro hsplit
  have hjoin := Separated.join_split '/' pattern
  rw [hsplit] at hjoin
  exact h hjoin.symm

theorem isOrdinary_of_mem_split (h : ∀ c ∈ pattern, Glob.isOrdinary c) :
    ∀ s ∈ Separated.split '/' pattern, ∀ c ∈ s, Glob.isOrdinary c := by
  intro s hs c hc
  exact h c ((Separated.infix_of_mem_split hs).subset hc)

/-- The pieces of an ordinary pattern are its characters. -/
theorem piecesFrom_opened_split (first : Bool) (h : ∀ c ∈ pattern, Glob.isOrdinary c)
    (hne : pattern ≠ []) :
    piecesFrom first false (opened (Separated.split '/' pattern)) =
      .ok (pattern.map .char ++ ending (Separated.split '/' pattern)) := by
  rw [piecesFrom_opened (Separated.split_ne_nil '/' pattern) (.inr (split_ne_singleton_nil hne))
    (isOrdinary_of_mem_split h), Separated.join_split]
  rfl

/-- The first segment of a pattern stays. -/
theorem exists_mem_opened_split (h : ∀ c ∈ pattern, Glob.isOrdinary c) (hne : pattern ≠ []) :
    ∃ s ∈ opened (Separated.split '/' pattern), ∀ c ∈ s, Glob.isOrdinary c := by
  have hordinary := isOrdinary_of_mem_split h
  have hopen := split_ne_singleton_nil hne
  obtain ⟨s, rest, hsplit⟩ := List.exists_cons_of_ne_nil (Separated.split_ne_nil '/' pattern)
  rw [hsplit] at hordinary hopen ⊢
  refine ⟨s, ?_, hordinary s List.mem_cons_self⟩
  cases rest with
  | nil =>
    have hs : s ≠ [] := fun hs => hopen (by rw [hs])
    rw [opened, if_neg hs]
    exact List.mem_cons_self
  | cons t rest => exact List.mem_cons_self

/-- An ordinary pattern that a slash pins to the top stands for itself there. -/
theorem ruleOf_pinned (restores : Bool) (h : ∀ c ∈ pattern, Glob.isOrdinary c)
    (hne : pattern ≠ []) : ruleOf restores ('/' :: pattern) =
      .ok (.active restores
        (.pieces (pattern.map .char ++ ending (Separated.split '/' pattern)))) := by
  have hsegments : Pattern.segments ('/' :: pattern) = opened (Separated.split '/' pattern) := by
    rw [Pattern.segments, Separated.split_cons_sep]
    exact merged_opened fun s hs => ne_anyDepth_of_isOrdinary (isOrdinary_of_mem_split h s hs)
  obtain ⟨s, hmem, hs⟩ := exists_mem_opened_split h hne
  refine ruleOf_of_piecesFrom restores (hsegments ▸ hmem) (ne_anyDepth_of_isOrdinary hs)
    (ne_anyName_of_isOrdinary hs) ?_ fun p hp => isSound_of_mem_ordinary hp
  rw [hsegments]
  exact piecesFrom_opened_split true h hne

/-- An ordinary name that nothing pins is looked for at every depth. -/
theorem ruleOf_floating (restores : Bool) (h : ∀ c ∈ s, Glob.isOrdinary c) (hne : s ≠ [])
    (hslash : '/' ∉ s) (hpattern : pattern = s ∨ pattern = s ++ ['/']) :
    ruleOf restores pattern =
      .ok (.active restores
        (.pieces (.above :: (pattern.map .char ++ ending (Separated.split '/' pattern))))) := by
  have hdepth := ne_anyDepth_of_isOrdinary h
  have hordinary : ∀ c ∈ pattern, Glob.isOrdinary c := by
    rcases hpattern with rfl | rfl
    · exact h
    · intro c hc
      rcases List.mem_append.mp hc with hc | hc
      · exact h c hc
      · rw [List.mem_singleton.mp hc]
        rfl
  have hpattern' : pattern ≠ [] := by
    rcases hpattern with rfl | rfl
    · exact hne
    · simp
  have hsegments : Pattern.segments pattern =
      anyDepth :: opened (Separated.split '/' pattern) := by
    obtain ⟨c, cs, rfl⟩ := List.exists_cons_of_ne_nil hne
    rcases hpattern with rfl | rfl
    · rw [Pattern.segments, Separated.split_of_not_mem hslash]
      simp [anchored, opened, merged, hdepth]
    · rw [Pattern.segments, Separated.split_append, Separated.split_of_not_mem hslash]
      simp [anchored, opened, merged, hdepth]
  obtain ⟨t, hmem, ht⟩ := exists_mem_opened_split hordinary hpattern'
  refine ruleOf_of_piecesFrom restores (hsegments ▸ List.mem_cons_of_mem _ hmem)
    (ne_anyDepth_of_isOrdinary ht) (ne_anyName_of_isOrdinary ht) ?_ ?_
  · have hpieces := piecesFrom_opened_split false hordinary hpattern'
    obtain ⟨u, us, hus⟩ := List.exists_cons_of_ne_nil (List.ne_nil_of_mem hmem)
    rw [hus] at hpieces
    rw [hsegments, hus, piecesFrom, if_pos rfl, if_pos rfl, hpieces]
    rfl
  · intro p hp
    rcases List.mem_cons.mp hp with rfl | hp
    · rfl
    · exact isSound_of_mem_ordinary hp

end Ordinary

end Pattern
end ScopeIndex
