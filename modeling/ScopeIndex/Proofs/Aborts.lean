import Mathlib
import ScopeIndex.Proofs.Patterns
import ScopeIndex.Proofs.Scans
import ScopeIndex.Proofs.Utf8

/-!
# When a scan returns

A file that cannot be indexed is noted among the failures of a scan and stops nothing.  Ignore
files are read before any file is indexed, and there it is different: one that is not a text, or
one with a line that is no pattern, ends the scan without a result, unless ignore files do not
count.  Nothing else that is in the directory does.

## Main definitions

* `IgnoreFile.IsSound` — a text of lines of which none is flawed.

## Main results

* `IgnoreFile.exists_read_iff` — the ignore files that can be read.
* `Workspace.exists_collect_iff` — the directories whose files can be collected.
* `Workspace.scan_returns` — **a scan returns unless an ignore file is flawed.**
-/

namespace ScopeIndex

/-- A list can be read if every item can. -/
theorem exists_mapM_eq_ok_iff {α β ε : Type} {f : α → Except ε β} {xs : List α} :
    (∃ ys, xs.mapM f = .ok ys) ↔ ∀ x ∈ xs, ∃ y, f x = .ok y := by
  induction xs with
  | nil => simp [pure, Except.pure]
  | cons x xs ih =>
    rw [List.forall_mem_cons, ← ih, List.mapM_cons]
    cases f x with
    | error e => simp [bind, Except.bind]
    | ok y => cases xs.mapM f <;> simp [bind, Except.bind, pure, Except.pure]

/-! ### Ignore files -/

namespace IgnoreFile

/-- Is an ignore file a text of which no line is flawed, as seen from the root? -/
def IsSound (bytes : List UInt8) (base : List Char) : Prop :=
  ∃ text : String, bytes = Utf8.encode text ∧
    ∀ line ∈ lines text.toList, ∀ flaw, ¬ Pattern.LineFlaw (rebaseLine base line) flaw

theorem exists_rules_iff {lines : List (List Char)} :
    (∃ spec, rules lines = .ok spec) ↔ ∀ line ∈ lines, ∀ flaw, ¬ Pattern.LineFlaw line flaw := by
  have hrule : ∀ line, (∃ rule, Pattern.rule line = .ok rule) ↔
      ∀ flaw, ¬ Pattern.LineFlaw line flaw := by
    intro line
    simp only [← Pattern.rule_eq_error_iff]
    cases Pattern.rule line <;> simp
  rw [rules, exists_mapM_eq_ok_iff]
  simp only [List.mem_filter, hrule]
  constructor
  · intro h line hline
    by_cases hempty : line = []
    · subst hempty
      rw [← hrule]
      exact ⟨.void, rfl⟩
    · exact h line ⟨hline, by simpa using hempty⟩
  · exact fun h line hline => h line hline.1

/-- The ignore files that can be read. -/
theorem exists_read_iff {bytes : List UInt8} {base : List Char} :
    (∃ spec, read bytes (some base) = .ok spec) ↔ IsSound bytes base := by
  simp only [IsSound, ← Utf8.decode?_eq_some_iff]
  cases hdecode : Utf8.decode? bytes with
  | none => simp [read, hdecode]
  | some text =>
    have hrules : (∃ spec, read bytes (some base) = .ok spec) ↔
        ∃ spec, rules ((lines text).map (rebaseLine base)) = .ok spec := by
      simp only [read, hdecode]
      cases rules ((lines text).map (rebaseLine base)) <;> simp
    rw [hrules, exists_rules_iff, List.forall_mem_map]
    constructor
    · intro h
      refine ⟨String.ofList text, ?_, ?_⟩
      · rw [String.toList_ofList]
      · rwa [String.toList_ofList]
    · rintro ⟨text', htext, h⟩
      rwa [Option.some.inj htext]

end IgnoreFile

namespace Workspace

variable {w : Workspace} {root : Location} {s : Settings} {processors : Option Int}
  {schedule : Schedule} {listener : Option Listener}

/-- The ignore files below a root that can be read. -/
theorem mem_ignoreFiles {f : Location × List UInt8} : f ∈ w.ignoreFiles root ↔
    ∃ directory d, (root ++ directory ++ [ignoreFileName], .file (.readable d)) ∈ w.entries ∧
      f = (directory ++ [ignoreFileName], d.source.bytes.data.toList) := by
  simp only [ignoreFiles, List.mem_filterMap, mem_filesBelow]
  constructor
  · rintro ⟨⟨place, content⟩, ⟨-, hmem⟩, hf⟩
    simp only [ignoreFile?, Option.ite_none_right_eq_some] at hf
    obtain ⟨hname, hf⟩ := hf
    obtain ⟨directory, rfl⟩ := List.getLast?_eq_some_iff.mp hname
    cases content with
    | faulty fault => cases hf
    | readable d =>
      cases hf
      exact ⟨directory, d, by simpa using hmem, rfl⟩
  · rintro ⟨directory, d, hmem, rfl⟩
    refine ⟨(directory ++ [ignoreFileName], .readable d), ⟨by simp, by simpa using hmem⟩, ?_⟩
    simp [ignoreFile?, Content.bytes]

theorem exists_ignoreSpec_iff : (∃ spec, w.ignoreSpec root = .ok spec) ↔
    ∀ directory d, (root ++ directory ++ [ignoreFileName], .file (.readable d)) ∈ w.entries →
      IgnoreFile.IsSound d.source.bytes.data.toList (IgnoreFile.base root (root ++ directory)) := by
  have hmap : ∀ r : Except IgnoreError (List IgnoreSpec),
      (∃ spec, r.map List.flatten = .ok spec) ↔ ∃ specs, r = .ok specs := by
    intro r
    cases r <;> simp [Except.map]
  rw [ignoreSpec, hmap, exists_mapM_eq_ok_iff]
  simp only [IgnoreFile.exists_read_iff, mem_ignoreFiles]
  constructor
  · intro h directory d hmem
    simpa using h _ ⟨directory, d, hmem, rfl⟩
  · rintro h f ⟨directory, d, hmem, rfl⟩
    simpa using h directory d hmem

/-- The directories whose files can be collected. -/
theorem exists_collect_iff : (∃ files, w.collect root s = .ok files) ↔
    (s.respectIgnore = true → ∀ directory d,
      (root ++ directory ++ [ignoreFileName], .file (.readable d)) ∈ w.entries →
      IgnoreFile.IsSound d.source.bytes.data.toList
        (IgnoreFile.base root (root ++ directory))) := by
  rw [← exists_ignoreSpec_iff, collect]
  cases s.respectIgnore with
  | false => simp [Except.map]
  | true => cases w.ignoreSpec root <;> simp [Except.map]

theorem exists_scan_iff : (∃ r, w.scan root s processors schedule listener = .ok r) ↔
    0 < s.workerCount processors ∧ ∃ files, w.collect root s = .ok files := by
  rw [scan, scanWith]
  cases w.collect root s with
  | error e => simp
  | ok files =>
    by_cases hworkers : s.workerCount processors ≤ 0
    · simp [hworkers]
    · simp [hworkers, not_le.mp hworkers]

/-- A file that cannot be indexed is noted. -/
theorem mem_keys_failures {r : ScanSummary} {files : List (Location × Content)}
    (hscan : w.scan root s processors schedule listener = .ok r)
    (hfiles : w.collect root s = .ok files) {f : Location × Content} (hf : f ∈ files)
    {e : Failure} (he : s.resultOf root f = .error e) (hempty : e.isEmptySource = false) :
    pathOf f ∈ r.failures.keys := by
  have hworkers := (exists_scan_iff.mp ⟨r, hscan⟩).1
  rw [scan, scanWith_eq _ hfiles hworkers] at hscan
  obtain rfl := Except.ok.inj hscan
  have hfailure : (pathOf f, e) ∈
      (schedule.arrange (finished (s.resultOf root) files)).filterMap Finished.failure? := by
    refine List.mem_filterMap.mpr ⟨.ofResult (pathOf f) (s.resultOf root f), ?_, ?_⟩
    · exact (schedule.perm _).mem_iff.mpr (List.mem_map.mpr ⟨f, hf, rfl⟩)
    · exact Finished.failure?_ofResult.mpr ⟨rfl, he, hempty⟩
  rw [ScanSummary.ofFinished, ScanSummary.ofTally, Tally.failures_ofFinished]
  exact Members.mem_keys_settle (List.mem_map.mpr ⟨_, hfailure, rfl⟩)

/-- **A scan returns unless an ignore file is flawed.**  If workers can be had, then what is in
the directory can keep a scan from returning in one way only: ignore files count, and one of
those that can be read is no text or has a flawed line.  Whatever is wrong with a source file, be it
that the system does not hand it over, is noted among the failures. -/
theorem scan_returns (w : Workspace) (root : Location) (s : Settings) (processors : Option Int)
    (schedule : Schedule) (listener : Option Listener) :
    ((∃ r, w.scan root s processors schedule listener = .ok r) ↔
      (∀ n, s.workers = some n → 1 ≤ n) ∧
      (s.respectIgnore = true → ∀ directory d,
        (root ++ directory ++ [ignoreFileName], .file (.readable d)) ∈ w.entries →
        IgnoreFile.IsSound d.source.bytes.data.toList
          (IgnoreFile.base root (root ++ directory)))) ∧
    ∀ r files, w.scan root s processors schedule listener = .ok r →
      w.collect root s = .ok files →
      ∀ f ∈ files, ∀ e, s.resultOf root f = .error e → e.isEmptySource = false →
        pathOf f ∈ r.failures.keys := by
  refine ⟨?_, fun r files hscan hfiles f hf e he hempty =>
    mem_keys_failures hscan hfiles hf he hempty⟩
  rw [exists_scan_iff, exists_collect_iff, Settings.workerCount_pos_iff]

end Workspace

/-! ### An ignore file that is no text -/

namespace Sample

/-- A directory with an empty source and an ignore file of one byte that begins no character. -/
def undecodable : Workspace :=
  { entries :=
      [([".gitignore"], .file (.readable ⟨⟨⟨#[0xFF]⟩⟩, none⟩)),
        (["a.js"], .file (.readable emptyFile))] }

end Sample

/-- Such a file ends a scan, although workers can be had. -/
theorem Workspace.scan_undecodable :
    Settings.workers {} = none ∧
      Sample.undecodable.scan [] {} none .inOrder none = .error (.ignoring .undecodable) := by
  have hbelow : Sample.undecodable.below [] = Sample.undecodable.entries :=
    List.mergeSort_of_pairwise (by decide +kernel)
  have hignore : Sample.undecodable.ignoreFiles [] = [([".gitignore"], [0xFF])] := by
    rw [ignoreFiles, filesBelow, hbelow]
    rfl
  have hdecode : Utf8.decode? [0xFF] = none := by
    rw [Utf8.decode?, Utf8.chunks_cons]
    rfl
  have hread : ∀ base, IgnoreFile.read [0xFF] base = .error .undecodable := by
    intro base
    rw [IgnoreFile.read, hdecode]
  have hspec : Sample.undecodable.ignoreSpec [] = .error .undecodable := by
    rw [ignoreSpec, hignore, List.mapM_cons, hread]
    rfl
  refine ⟨rfl, ?_⟩
  rw [scan, scanWith, collect, if_pos rfl, hspec]
  rfl

end ScopeIndex
