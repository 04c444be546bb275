import Mathlib
import ScopeIndex.Proofs.Members
import ScopeIndex.Scan.Tally

/-!
# A scan accounts for every file

Files are counted as they are finished, in whatever order that is.  Each of them goes to one
of three lists, by what became of it, and is not looked at again; so the three lists hold
what the files say, in the order of their coming.  The summary sorts two of them by path.

If the paths of the files differ, then nothing of the summary but the order of the failures
depends on the order in which the files were finished.

## Main definitions

* `Failure.isEmptySource` — the failure of an empty file.
* `ScanSummary.Accounts` — every file is in one place, as what became of it.

## Main results

* `Tally.files_ofFinished`, `Tally.skipped_ofFinished`, `Tally.failures_ofFinished` — the
  three lists.
* `ScanSummary.accounts_of_perm` — a summary accounts for its files, in any order.
* `ScanSummary.Accounts.agree` — two summaries of the same files agree.
-/

namespace ScopeIndex

/-- Is it the failure of an empty file? -/
def Failure.isEmptySource : Failure → Bool
  | .indexing e => e.cause.family == .emptySource
  | _ => false

/-! ### Finished files -/

namespace Finished

/-- The index of a file that was indexed. -/
def index? (f : Finished) : Option FileIndex :=
  match f.outcome with
  | .indexed index => some index
  | _ => none

/-- The path of a file that is empty. -/
def emptyPath? (f : Finished) : Option String :=
  match f.outcome with
  | .empty => some f.path
  | _ => none

/-- The path of a file that failed, with its failure. -/
def failure? (f : Finished) : Option (String × Failure) :=
  match f.outcome with
  | .failed failure => some (f.path, failure)
  | _ => none

variable {path : String} {result : Except Failure FileIndex}

theorem ofResult_of_isEmptySource {e : Failure} (h : e.isEmptySource = true) :
    ofResult path (.error e) = ⟨path, .empty⟩ := by
  cases e with
  | indexing e => simp [ofResult, FileOutcome.ofResult, beq_iff_eq.mp h]
  | _ => cases h

theorem ofResult_of_not_isEmptySource {e : Failure} (h : e.isEmptySource = false) :
    ofResult path (.error e) = ⟨path, .failed e⟩ := by
  cases e with
  | indexing e => simp [ofResult, FileOutcome.ofResult, beq_eq_false_iff_ne.mp h]
  | _ => rfl

theorem index?_ofResult {index : FileIndex} :
    (ofResult path result).index? = some index ↔ result = .ok index := by
  cases result with
  | ok i => simp [ofResult, FileOutcome.ofResult, index?]
  | error e =>
    cases h : e.isEmptySource with
    | true => simp [ofResult_of_isEmptySource h, index?]
    | false => simp [ofResult_of_not_isEmptySource h, index?]

theorem emptyPath?_ofResult {other : String} :
    (ofResult path result).emptyPath? = some other ↔
      path = other ∧ ∃ e, result = .error e ∧ e.isEmptySource = true := by
  cases result with
  | ok i => simp [ofResult, FileOutcome.ofResult, emptyPath?]
  | error e =>
    cases h : e.isEmptySource with
    | true => simp [ofResult_of_isEmptySource h, emptyPath?, h]
    | false => simp [ofResult_of_not_isEmptySource h, emptyPath?, h]

theorem failure?_ofResult {other : String} {failure : Failure} :
    (ofResult path result).failure? = some (other, failure) ↔
      path = other ∧ result = .error failure ∧ failure.isEmptySource = false := by
  cases result with
  | ok i => simp [ofResult, FileOutcome.ofResult, failure?]
  | error e =>
    cases h : e.isEmptySource with
    | true =>
      have hempty : e = failure → failure.isEmptySource = true := fun heq => heq ▸ h
      simpa [ofResult_of_isEmptySource h, failure?] using fun _ => hempty
    | false =>
      have hfailed : e = failure → failure.isEmptySource = false := fun heq => heq ▸ h
      simpa [ofResult_of_not_isEmptySource h, failure?] using fun _ => hfailed

/-- Every file is in one of the three lists. -/
theorem paths_perm {fs : List Finished}
    (hnamed : ∀ f ∈ fs, ∀ index, f.index? = some index → index.path = f.path) :
    ((fs.filterMap index?).map (·.path) ++
      (fs.filterMap emptyPath? ++ (fs.filterMap failure?).map (·.1))).Perm (fs.map (·.path)) := by
  induction fs with
  | nil => exact .refl _
  | cons f fs ih =>
    obtain ⟨hf, hfs⟩ := List.forall_mem_cons.mp hnamed
    have ih := ih hfs
    obtain ⟨path, outcome⟩ := f
    cases outcome with
    | indexed index =>
      have hpath : index.path = path := hf index rfl
      simpa [List.filterMap_cons, index?, emptyPath?, failure?, hpath] using ih
    | empty =>
      simpa [List.filterMap_cons, index?, emptyPath?, failure?] using
        List.perm_middle.trans (ih.cons path)
    | failed failure =>
      have hmiddle := List.perm_middle.trans
        (((List.append_assoc ..) ▸ ih).cons path)
      simpa [List.filterMap_cons, index?, emptyPath?, failure?] using hmiddle

/-- If paths differ, then no path has two failures. -/
theorem nodup_failures {fs : List Finished} (h : (fs.map (·.path)).Nodup) :
    (Members.keys (fs.filterMap failure?)).Nodup := by
  refine List.pairwise_map.mpr (List.pairwise_filterMap.mpr ((List.pairwise_map.mp h).imp ?_))
  have hkey : ∀ {f : Finished} {m : String × Failure}, f.failure? = some m → m.1 = f.path := by
    rintro ⟨path, outcome⟩ m hm
    cases outcome with
    | failed failure => cases hm; rfl
    | indexed index => cases hm
    | empty => cases hm
  intro f f' hne m hm m' hm'
  rwa [hkey hm, hkey hm']

end Finished

/-! ### Counting -/

namespace Tally

variable {r : Reporting} {t : Tally} {f : Finished}

@[simp] theorem files_report : (t.report r).files = t.files := by
  unfold report
  split <;> rfl

@[simp] theorem skipped_report : (t.report r).skipped = t.skipped := by
  unfold report
  split <;> rfl

@[simp] theorem failures_report : (t.report r).failures = t.failures := by
  unfold report
  split <;> rfl

theorem files_add : (t.add r f).files = t.files ++ f.index?.toList := by
  rw [add, files_report, count, Finished.index?]
  cases f.outcome <;> simp

theorem skipped_add : (t.add r f).skipped = t.skipped ++ f.emptyPath?.toList := by
  rw [add, skipped_report, count, Finished.emptyPath?]
  cases f.outcome <;> simp

theorem failures_add : (t.add r f).failures =
    f.failure?.toList.foldl (fun failures m => Members.put m.1 m.2 failures) t.failures := by
  rw [add, failures_report, count, Finished.failure?]
  cases f.outcome <;> rfl

/-- The indexes are kept in the order in which they come. -/
theorem files_ofFinished (r : Reporting) (fs : List Finished) :
    (ofFinished r fs).files = fs.filterMap Finished.index? :=
  calc (ofFinished r fs).files
      = fs.foldl (fun files f => files ++ f.index?.toList) [] :=
        (List.foldl_hom Tally.files fun _ _ => files_add.symm).symm
    _ = fs.filterMap Finished.index? := by
        rw [List.foldl_append_eq_append, List.nil_append, List.filterMap_eq_flatMap_toList,
          List.flatMap]

/-- So are the paths of the empty files. -/
theorem skipped_ofFinished (r : Reporting) (fs : List Finished) :
    (ofFinished r fs).skipped = fs.filterMap Finished.emptyPath? :=
  calc (ofFinished r fs).skipped
      = fs.foldl (fun skipped f => skipped ++ f.emptyPath?.toList) [] :=
        (List.foldl_hom Tally.skipped fun _ _ => skipped_add.symm).symm
    _ = fs.filterMap Finished.emptyPath? := by
        rw [List.foldl_append_eq_append, List.nil_append, List.filterMap_eq_flatMap_toList,
          List.flatMap]

/-- So are the failures; of two with one path the later counts. -/
theorem failures_ofFinished (r : Reporting) (fs : List Finished) :
    (ofFinished r fs).failures = Members.settle (fs.filterMap Finished.failure?) :=
  calc (ofFinished r fs).failures
      = fs.foldl (fun failures f =>
          f.failure?.toList.foldl (fun failures m => Members.put m.1 m.2 failures) failures) [] :=
        (List.foldl_hom Tally.failures fun _ _ => failures_add.symm).symm
    _ = Members.settle (fs.filterMap Finished.failure?) := by
        rw [Members.settle, List.filterMap_eq_flatMap_toList, List.foldl_flatMap]

end Tally

/-! ### Sorting by path -/

/-- Items that are sorted by keys of which no two are equal. -/
theorem pairwise_mergeSort_key {α : Type} (key : α → String) {xs : List α}
    (h : (xs.map key).Nodup) :
    (xs.mergeSort fun a b => key a ≤ key b).Pairwise (key · < key ·) := by
  have hsorted : (xs.mergeSort fun a b => key a ≤ key b).Pairwise (key · ≤ key ·) := by
    refine (List.pairwise_mergeSort ?_ ?_ xs).imp of_decide_eq_true
    · intro a b c hab hbc
      exact decide_eq_true ((of_decide_eq_true hab).trans (of_decide_eq_true hbc))
    · intro a b
      simpa using le_total (key a) (key b)
  have hdistinct : (xs.mergeSort fun a b => key a ≤ key b).Pairwise (key · ≠ key ·) :=
    List.pairwise_map.mp (((List.mergeSort_perm xs _).map key).nodup_iff.mpr h)
  exact hsorted.imp₂ (fun _ _ => lt_of_le_of_ne) hdistinct

/-- Lists that are sorted by a key and have the same members are equal. -/
theorem eq_of_pairwise_key {α : Type} (key : α → String) {xs ys : List α}
    (hx : xs.Pairwise (key · < key ·)) (hy : ys.Pairwise (key · < key ·))
    (hmem : ∀ a, a ∈ xs ↔ a ∈ ys) : xs = ys := by
  have hnodup : ∀ {zs : List α}, zs.Pairwise (key · < key ·) → zs.Nodup := fun hz =>
    hz.imp fun hlt heq => hlt.ne (congrArg key heq)
  refine List.Perm.eq_of_pairwise (fun a b _ _ hab hba => absurd hba (lt_asymm hab)) hx hy ?_
  exact (List.perm_ext_iff_of_nodup (hnodup hx) (hnodup hy)).mpr hmem

/-! ### Summaries -/

namespace ScanSummary

/-- A summary accounts for files, each of which has a path and a result of its own. -/
structure Accounts {ι : Type} (r : ScanSummary) (path : ι → String)
    (result : ι → Except Failure FileIndex) (files : List ι) : Prop where
  /-- The path of every file is in one of the three lists, and there once. -/
  once : (r.files.map (·.path) ++ (r.skipped ++ r.failures.keys)).Perm (files.map path)
  /-- The indexes are those of the files that have one. -/
  mem_files : ∀ index, index ∈ r.files ↔ ∃ f ∈ files, result f = .ok index
  /-- An index is found under the path of its file. -/
  named : ∀ f ∈ files, ∀ index, result f = .ok index → index.path = path f
  /-- Empty files are skipped. -/
  mem_skipped : ∀ p, p ∈ r.skipped ↔
    ∃ f ∈ files, path f = p ∧ ∃ e, result f = .error e ∧ e.isEmptySource = true
  /-- All other failures are kept, each under the path of its file. -/
  get?_failures : ∀ p e, r.failures.get? p = some e ↔
    ∃ f ∈ files, path f = p ∧ result f = .error e ∧ e.isEmptySource = false
  /-- The indexes are sorted by path. -/
  files_sorted : r.files.Pairwise (·.path < ·.path)
  /-- The skipped paths are sorted. -/
  skipped_sorted : r.skipped.Pairwise (· < ·)

/-- The failures are kept in the order in which they come. -/
theorem failures_ofFinished (every : Int) (listener : Option Listener) {fs : List Finished}
    (h : (fs.map (·.path)).Nodup) :
    (ofFinished every listener fs).failures = fs.filterMap Finished.failure? :=
  (Tally.failures_ofFinished _ fs).trans (Members.settle_of_nodup (Finished.nodup_failures h))

variable {ι : Type} {path : ι → String} {result : ι → Except Failure FileIndex} {files : List ι}

/-- **A summary accounts for its files**, whatever became of them and in whatever order they
were finished. -/
theorem accounts_of_perm (hdistinct : (files.map path).Nodup)
    (hnamed : ∀ f ∈ files, ∀ index, result f = .ok index → index.path = path f) (every : Int)
    (listener : Option Listener) {done : List Finished}
    (hdone : done.Perm (files.map fun f => .ofResult (path f) (result f))) :
    (ofFinished every listener done).Accounts path result files := by
  have hmem : ∀ f, f ∈ done ↔ ∃ g ∈ files, .ofResult (path g) (result g) = f := fun f => by
    rw [hdone.mem_iff, List.mem_map]
  have hpaths : (done.map (·.path)).Perm (files.map path) := by
    simpa [List.map_map, Function.comp_def, Finished.ofResult] using hdone.map Finished.path
  have hdone_named : ∀ f ∈ done, ∀ index, f.index? = some index → index.path = f.path := by
    intro f hf index hindex
    obtain ⟨g, hg, rfl⟩ := (hmem f).mp hf
    exact hnamed g hg index (Finished.index?_ofResult.mp hindex)
  have hlists := (Finished.paths_perm hdone_named).trans hpaths
  -- so no path is repeated in any of the three lists
  have hnodup := hlists.nodup_iff.mpr hdistinct
  obtain ⟨hindexed, hrest, -⟩ := List.nodup_append'.mp hnodup
  obtain ⟨hempty, hfailed, -⟩ := List.nodup_append'.mp hrest
  have hfailures := failures_ofFinished every listener (hpaths.nodup_iff.mpr hdistinct)
  have hfiles : (ofFinished every listener done).files =
      (done.filterMap Finished.index?).mergeSort fun a b => a.path ≤ b.path := by
    rw [ofFinished, ofTally, Tally.files_ofFinished]
  have hskipped : (ofFinished every listener done).skipped =
      (done.filterMap Finished.emptyPath?).mergeSort fun a b => a ≤ b := by
    rw [ofFinished, ofTally, Tally.skipped_ofFinished]
  constructor
  case once =>
    rw [hfiles, hskipped, hfailures]
    refine List.Perm.trans (.append ?_ ?_) hlists
    · exact (List.mergeSort_perm _ _).map _
    · exact (List.mergeSort_perm _ _).append_right _
  case named => exact hnamed
  case mem_files =>
    intro index
    simp only [hfiles, List.mem_mergeSort, List.mem_filterMap, hmem, exists_exists_and_eq_and,
      Finished.index?_ofResult]
  case mem_skipped =>
    intro p
    simp only [hskipped, List.mem_mergeSort, List.mem_filterMap, hmem, exists_exists_and_eq_and,
      Finished.emptyPath?_ofResult]
  case get?_failures =>
    intro p e
    rw [hfailures, Members.get?_eq_some_iff hfailed]
    simp only [List.mem_filterMap, hmem, exists_exists_and_eq_and, Finished.failure?_ofResult]
  case files_sorted =>
    rw [hfiles]
    exact pairwise_mergeSort_key FileIndex.path hindexed
  case skipped_sorted =>
    rw [hskipped]
    exact pairwise_mergeSort_key id (by rwa [List.map_id])

/-- Two summaries that account for the same files agree but for the order of the failures and
the reports. -/
theorem Accounts.agree {r r' : ScanSummary} (h : r.Accounts path result files)
    (h' : r'.Accounts path result files) :
    r.files = r'.files ∧ r.skipped = r'.skipped ∧ ∀ p, r.failures.get? p = r'.failures.get? p := by
  refine ⟨?_, ?_, fun p => ?_⟩
  · exact eq_of_pairwise_key FileIndex.path h.files_sorted h'.files_sorted fun index => by
      rw [h.mem_files, h'.mem_files]
  · exact eq_of_pairwise_key id h.skipped_sorted h'.skipped_sorted fun p => by
      rw [h.mem_skipped, h'.mem_skipped]
  · exact Option.ext fun e => by rw [h.get?_failures, h'.get?_failures]

/-- No path has two failures. -/
theorem Accounts.nodup_keys {r : ScanSummary} (h : r.Accounts path result files)
    (hdistinct : (files.map path).Nodup) : r.failures.keys.Nodup :=
  ((List.nodup_append'.mp (h.once.nodup_iff.mpr hdistinct)).2.1.sublist
    (List.sublist_append_right _ _))

/-- The failures of two summaries of the same files differ in their order only. -/
theorem Accounts.failures_perm {r r' : ScanSummary} (h : r.Accounts path result files)
    (h' : r'.Accounts path result files) (hdistinct : (files.map path).Nodup) :
    r.failures.Perm r'.failures :=
  Members.perm_of_get?_eq (h.nodup_keys hdistinct) (h'.nodup_keys hdistinct) (h.agree h').2.2

end ScanSummary
end ScopeIndex
