import Mathlib
import ScopeIndex.Proofs.Aborts
import ScopeIndex.Proofs.Failing
import ScopeIndex.Proofs.Rebasing

/-!
# The order of ignore files

Of all rules that match a path the last one decides, so it matters in which order the ignore files
of a directory tree are read.  They are read in the order of their places, name by name.  Two files
of which one is deeper part where the name of the upper file meets the name of the directory on the
way to the deeper one.  So the deeper file comes later and wins, unless this name comes before the
name of ignore files: then it is the upper one that wins, and nothing below can restore what it
ignores.

## Main results

* `Workspace.locationLe_total`, `Workspace.locationLe_trans`, `Workspace.locationLe_antisymm` —
  places are in a linear order.
* `Workspace.locationLe_deeper` — the order of an ignore file and one below it.
* `Workspace.ignoreSpec_deeper` — **which of two ignore files wins.**
-/

namespace ScopeIndex

/-- Items of a list in order stand in this order. -/
theorem exists_split_of_pairwise {α : Type} {r : α → α → Prop} {xs : List α} {a b : α}
    (h : xs.Pairwise r) (ha : a ∈ xs) (hb : b ∈ xs) (hne : b ≠ a) (hnot : ¬ r b a) :
    ∃ before between after, xs = before ++ a :: (between ++ b :: after) := by
  obtain ⟨before, rest, rfl⟩ := List.append_of_mem ha
  rw [List.mem_append, List.mem_cons] at hb
  rcases hb with hb | rfl | hb
  · exact absurd ((List.pairwise_append.mp h).2.2 b hb a List.mem_cons_self) hnot
  · exact absurd rfl hne
  · obtain ⟨between, after, rfl⟩ := List.append_of_mem hb
    exact ⟨before, between, after, rfl⟩

namespace IgnoreSpec

/-- Among the rules of `spec` those of `second` come after those of `first`, and before `rest`. -/
def InTurn (spec first second rest : IgnoreSpec) : Prop :=
  ∃ before between, spec = before ++ first ++ between ++ second ++ rest

/-- **The last rule decides**: nothing said before matters. -/
theorem InTurn.verdict?_eq {spec first second rest : IgnoreSpec} {path : List Char} {verdict : Bool}
    (h : InTurn spec first second rest) (hrest : verdict? rest path = none)
    (hsecond : verdict? second path = some verdict) : verdict? spec path = some verdict := by
  obtain ⟨before, between, rfl⟩ := h
  rw [verdict?_append, verdict?_append, hrest, hsecond]
  rfl

end IgnoreSpec

namespace Workspace

open IgnoreSpec

variable {w : Workspace} {root : Location}

/-! ### The order of places -/

theorem locationLe_cons_iff {a b : String} {as bs : Location} :
    locationLe (a :: as) (b :: bs) = true ↔ a < b ∨ a = b ∧ locationLe as bs = true := by
  simp [locationLe]

theorem locationLe_total (a b : Location) : (locationLe a b || locationLe b a) = true := by
  induction a generalizing b with
  | nil => rfl
  | cons x a ih =>
    cases b with
    | nil => rfl
    | cons y b =>
      rw [Bool.or_eq_true, locationLe_cons_iff, locationLe_cons_iff]
      rcases lt_trichotomy x y with hlt | rfl | hgt
      · exact .inl (.inl hlt)
      · have ih := Bool.or_eq_true_iff.mp (ih b)
        exact ih.imp (fun h => .inr ⟨rfl, h⟩) fun h => .inr ⟨rfl, h⟩
      · exact .inr (.inl hgt)

theorem locationLe_trans (a b c : Location) (hab : locationLe a b = true)
    (hbc : locationLe b c = true) : locationLe a c = true := by
  induction a generalizing b c with
  | nil => rfl
  | cons x a ih =>
    cases b with
    | nil => cases hab
    | cons y b =>
      cases c with
      | nil => cases hbc
      | cons z c =>
        rw [locationLe_cons_iff] at hab hbc ⊢
        rcases hab with hxy | ⟨rfl, hab⟩
        · rcases hbc with hyz | ⟨rfl, -⟩
          · exact .inl (hxy.trans hyz)
          · exact .inl hxy
        · rcases hbc with hyz | ⟨rfl, hbc⟩
          · exact .inl hyz
          · exact .inr ⟨rfl, ih b c hab hbc⟩

theorem locationLe_antisymm {a b : Location} (hab : locationLe a b = true)
    (hba : locationLe b a = true) : a = b := by
  induction a generalizing b with
  | nil =>
    cases b with
    | nil => rfl
    | cons y b => cases hba
  | cons x a ih =>
    cases b with
    | nil => cases hab
    | cons y b =>
      rw [locationLe_cons_iff] at hab hba
      rcases hab with hxy | ⟨rfl, hab⟩
      · rcases hba with hyx | ⟨rfl, -⟩
        · exact absurd hyx hxy.not_gt
        · exact absurd hxy (lt_irrefl _)
      · rcases hba with hxx | ⟨-, hba⟩
        · exact absurd hxx (lt_irrefl _)
        · rw [ih hab hba]

/-- What two places have in common does not matter. -/
theorem locationLe_append (common a b : Location) :
    locationLe (common ++ a) (common ++ b) = locationLe a b := by
  induction common with
  | nil => rfl
  | cons x common ih => simp [locationLe, ih]

/-- **An ignore file and one below it**: which comes first is up to the first name on the way
down. -/
theorem locationLe_deeper (upper : Location) (step : String) (way : Location) :
    locationLe (upper ++ [ignoreFileName]) (upper ++ step :: way) =
      !decide (step < ignoreFileName) := by
  rw [locationLe_append, Bool.eq_iff_iff, locationLe_cons_iff]
  have hnil : locationLe [] way = true := by cases way <;> rfl
  simp only [hnil, and_true, Bool.not_eq_true', decide_eq_false_iff_not, not_lt]
  exact le_iff_lt_or_eq.symm

theorem pairwise_below (w : Workspace) (root : Location) :
    (w.below root).Pairwise fun e e' => locationLe e.1 e'.1 = true :=
  List.pairwise_mergeSort (fun e e' e'' => locationLe_trans e.1 e'.1 e''.1)
    (fun e e' => locationLe_total e.1 e'.1) _

theorem pairwise_filesBelow (w : Workspace) (root : Location) :
    (w.filesBelow root).Pairwise fun f f' => locationLe f.1 f'.1 = true := by
  refine (pairwise_below w root).filterMap _ fun e e' hle f hf f' hf' => ?_
  obtain ⟨content, -, rfl⟩ := Option.map_eq_some_iff.mp hf
  obtain ⟨content', -, rfl⟩ := Option.map_eq_some_iff.mp hf'
  exact hle

/-- Ignore files are read in the order of their places. -/
theorem pairwise_ignoreFiles (w : Workspace) (root : Location) :
    (w.ignoreFiles root).Pairwise fun f f' => locationLe f.1 f'.1 = true := by
  have hplace : ∀ {f : Location × Content} {g : Location × List UInt8},
      g ∈ ignoreFile? f → g.1 = f.1 := by
    intro f g hg
    simp only [ignoreFile?, Option.mem_def, Option.ite_none_right_eq_some] at hg
    obtain ⟨-, hg⟩ := hg
    split at hg
    · cases hg
      rfl
    · cases hg
  refine (pairwise_filesBelow w root).filterMap _ fun f f' hle g hg g' hg' => ?_
  rwa [hplace hg, hplace hg']

/-- Rules are in the order of the places of the files that they come from. -/
theorem exists_inTurn {first second : Location × List UInt8} {spec : IgnoreSpec}
    (hfirst : first ∈ w.ignoreFiles root) (hsecond : second ∈ w.ignoreFiles root)
    (hne : second.1 ≠ first.1) (hle : locationLe first.1 second.1 = true)
    (hspec : w.ignoreSpec root = .ok spec) :
    ∃ firstRules secondRules rest,
      IgnoreFile.read first.2 (some (IgnoreFile.base root (root ++ first.1.dropLast))) =
        .ok firstRules ∧
      IgnoreFile.read second.2 (some (IgnoreFile.base root (root ++ second.1.dropLast))) =
        .ok secondRules ∧
      InTurn spec firstRules secondRules rest := by
  obtain ⟨before, between, after, hfiles⟩ :=
    exists_split_of_pairwise (pairwise_ignoreFiles w root) hfirst hsecond
      (fun heq => hne (congrArg Prod.fst heq)) fun hle' => hne (locationLe_antisymm hle' hle)
  obtain ⟨specs, hspecs, rfl⟩ := exists_of_map_eq_ok hspec
  rw [hfiles] at hspecs
  -- the files before, the first, those between, the second and those after
  obtain ⟨befores, _, -, htail, rfl⟩ := exists_of_mapM_append hspecs
  obtain ⟨firstRules, _, hfirst, hmiddle, rfl⟩ := exists_of_mapM_cons htail
  obtain ⟨betweens, _, -, hlast, rfl⟩ := exists_of_mapM_append hmiddle
  obtain ⟨secondRules, rest, hsecond, -, rfl⟩ := exists_of_mapM_cons hlast
  refine ⟨firstRules, secondRules, rest.flatten, hfirst, hsecond, befores.flatten,
    betweens.flatten, ?_⟩
  simp only [List.flatten_append, List.flatten_cons, List.append_assoc]

/-- **Which of two ignore files wins.**  Of an ignore file and one below it, the rules of the deeper
file come later, and so decide about every path that no later rule matches, unless the first name
on the way down comes before the name of ignore files.  Then it is the other way round. -/
theorem ignoreSpec_deeper {upper way : Location} {step : String} {d d' : Document}
    {spec : IgnoreSpec}
    (hupper : (root ++ upper ++ [ignoreFileName], .file (.readable d)) ∈ w.entries)
    (hlower : (root ++ (upper ++ step :: way) ++ [ignoreFileName], .file (.readable d')) ∈
      w.entries)
    (hspec : w.ignoreSpec root = .ok spec) :
    ∃ upperRules lowerRules rest,
      IgnoreFile.read d.source.bytes.data.toList (some (IgnoreFile.base root (root ++ upper))) =
        .ok upperRules ∧
      IgnoreFile.read d'.source.bytes.data.toList
        (some (IgnoreFile.base root (root ++ (upper ++ step :: way)))) = .ok lowerRules ∧
      (¬ step < ignoreFileName → InTurn spec upperRules lowerRules rest ∧
        ∀ path verdict, verdict? rest path = none → verdict? lowerRules path = some verdict →
          verdict? spec path = some verdict) ∧
      (step < ignoreFileName → InTurn spec lowerRules upperRules rest ∧
        ∀ path verdict, verdict? rest path = none → verdict? upperRules path = some verdict →
          verdict? spec path = some verdict) := by
  have hmem := mem_ignoreFiles.mpr ⟨upper, d, hupper, rfl⟩
  have hmem' := mem_ignoreFiles.mpr ⟨upper ++ step :: way, d', hlower, rfl⟩
  have hne : upper ++ step :: way ++ [ignoreFileName] ≠ upper ++ [ignoreFileName] := by simp
  have hle := locationLe_deeper upper step (way ++ [ignoreFileName])
  rw [← List.cons_append, ← List.append_assoc] at hle
  -- the places part at the name of ignore files and the first name on the way down
  by_cases hstep : step < ignoreFileName
  · rw [decide_eq_true hstep, Bool.not_true] at hle
    have hle' := (Bool.or_eq_true_iff.mp (locationLe_total _ _)).resolve_left (by rw [hle]; decide)
    obtain ⟨lowerRules, upperRules, rest, hlower, hupper, hturn⟩ :=
      exists_inTurn hmem' hmem hne.symm hle' hspec
    rw [List.dropLast_concat] at hlower hupper
    exact ⟨upperRules, lowerRules, rest, hupper, hlower, fun hnot => absurd hstep hnot,
      fun _ => ⟨hturn, fun path verdict => hturn.verdict?_eq⟩⟩
  · rw [decide_eq_false hstep, Bool.not_false] at hle
    obtain ⟨upperRules, lowerRules, rest, hupper, hlower, hturn⟩ :=
      exists_inTurn hmem hmem' hne hle hspec
    rw [List.dropLast_concat] at hlower hupper
    exact ⟨upperRules, lowerRules, rest, hupper, hlower,
      fun _ => ⟨hturn, fun path verdict => hturn.verdict?_eq⟩, fun h => absurd h hstep⟩

end Workspace

/-! ### Two directories that restore a source -/

namespace Sample

/-- A directory that ignores all sources, and below it two directories that restore one each. -/
def restoring : Workspace where
  entries :=
   [([".github", ".gitignore"], .file (.readable ⟨.ofText "!a.js\n", none⟩)),
    ([".github", "a.js"], .file (.readable emptyFile)),
    ([".gitignore"], .file (.readable ⟨.ofText "*.js\n", none⟩)),
    (["lib", ".gitignore"], .file (.readable ⟨.ofText "!a.js\n", none⟩)),
    (["lib", "a.js"], .file (.readable emptyFile))]

/-- The rule that ignores all sources. -/
def ignoringRule : IgnoreRule :=
  .active false (.pieces [.above, .run, .char '.', .char 'j', .char 's', .close])

/-- The rule that restores a source in a directory. -/
def restoringRule (name : String) : IgnoreRule :=
  .active true (.pieces (name.toList.map .char ++
    [.between, .char '/', .char 'a', .char '.', .char 'j', .char 's', .close]))

theorem below_restoring : restoring.below [] = restoring.entries :=
  List.mergeSort_of_pairwise (by decide +kernel)

theorem ignoreSpec_restoring : restoring.ignoreSpec [] =
    .ok [restoringRule ".github", ignoringRule, restoringRule "lib"] := by
  have hfiles : restoring.ignoreFiles [] =
      [([".github", ".gitignore"], Utf8.encode "!a.js\n"), ([".gitignore"], Utf8.encode "*.js\n"),
        (["lib", ".gitignore"], Utf8.encode "!a.js\n")] := by
    rw [Workspace.ignoreFiles, Workspace.filesBelow, below_restoring]
    rfl
  rw [Workspace.ignoreSpec, hfiles]
  simp only [List.mapM_cons, List.mapM_nil, IgnoreFile.read_encode]
  rfl

end Sample

namespace Workspace

open IgnoreSpec

theorem ignoreSpec_deeper_restored :
    ([] ++ [] ++ [ignoreFileName], .file (.readable ⟨.ofText "*.js\n", none⟩)) ∈
      Sample.restoring.entries ∧
    ([] ++ ([] ++ ["lib"]) ++ [ignoreFileName], .file (.readable ⟨.ofText "!a.js\n", none⟩)) ∈
      Sample.restoring.entries ∧
    ∃ spec, Sample.restoring.ignoreSpec [] = .ok spec ∧ ¬ "lib" < ignoreFileName ∧
      ∃ upperRules lowerRules rest,
        IgnoreFile.read (Utf8.encode "*.js\n") (some (IgnoreFile.base [] [])) = .ok upperRules ∧
        IgnoreFile.read (Utf8.encode "!a.js\n") (some (IgnoreFile.base [] ["lib"])) =
          .ok lowerRules ∧
        InTurn spec upperRules lowerRules rest := by
  have hupper : ([] ++ [] ++ [ignoreFileName], .file (.readable ⟨.ofText "*.js\n", none⟩)) ∈
      Sample.restoring.entries := .tail _ (.tail _ (.head _))
  have hlower : ([] ++ ([] ++ ["lib"]) ++ [ignoreFileName],
      .file (.readable ⟨.ofText "!a.js\n", none⟩)) ∈ Sample.restoring.entries := .tail _ (.tail _ (.tail _ (.head _)))
  have hstep : ¬ "lib" < ignoreFileName := by decide +kernel
  refine ⟨hupper, hlower, _, Sample.ignoreSpec_restoring, hstep, ?_⟩
  obtain ⟨upperRules, lowerRules, rest, hreadUpper, hreadLower, hafter, -⟩ :=
    ignoreSpec_deeper hupper hlower Sample.ignoreSpec_restoring
  exact ⟨upperRules, lowerRules, rest, hreadUpper, hreadLower, (hafter hstep).1⟩

/-- In the directory that comes before the ignore file the source is not restored. -/
theorem ignoreSpec_overruled : ∃ rest,
    IgnoreFile.read (Utf8.encode "*.js\n") (some (IgnoreFile.base [] [])) =
      .ok [Sample.ignoringRule] ∧
    IgnoreFile.read (Utf8.encode "!a.js\n") (some (IgnoreFile.base [] [".github"])) =
      .ok [Sample.restoringRule ".github"] ∧
    Sample.restoring.ignoreSpec [] =
      .ok ([Sample.restoringRule ".github"] ++ [Sample.ignoringRule] ++ rest) ∧
    verdict? [Sample.restoringRule ".github"] ".github/a.js".toList = some false ∧
    verdict? rest ".github/a.js".toList = none ∧
    Sample.restoring.collect [] {} = .ok [(["lib", "a.js"], .readable Sample.emptyFile)] := by
  refine ⟨[Sample.restoringRule "lib"], ?_, ?_, Sample.ignoreSpec_restoring, by decide,
    by decide, ?_⟩
  · rw [IgnoreFile.read_encode]
    rfl
  · rw [IgnoreFile.read_encode]
    rfl
  · rw [collect, Sample.ignoreSpec_restoring, filesBelow, Sample.below_restoring]
    rfl

end Workspace
end ScopeIndex
