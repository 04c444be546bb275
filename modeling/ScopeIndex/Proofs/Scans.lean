import Mathlib
import ScopeIndex.Proofs.Tally
import ScopeIndex.Scan.Run

/-!
# What a scan returns

A scan collects files, lets workers index each of them on its own, and sums up what they
have finished.  What is in the sum does not depend on the order in which they finish, and
nothing that a worker comes to is lost, be it a file that the system does not hand over.

Names do not hold a slash, so the paths of the files below a directory differ.

## Main definitions

* `Workspace.IsTree` — places are filled once, and names hold no slash.
* `Workspace.Accounted` — a scan that accounts for its files in the same way for every order.

## Main results

* `Workspace.IsTree.nodup_collect` — the paths of collected files differ.
* `Workspace.scanWith_eq` — a scan in terms of its files.
* `Workspace.scan_accounts` — **a scan accounts for every file, whatever the order.**
-/

namespace ScopeIndex

/-- The index of a file has the path under which the file was indexed. -/
theorem Document.path_of_indexFile {d : Document} {path : String} {rules : IndexRules}
    {index : FileIndex} (h : (d.indexFile path rules).result = .ok index) : index.path = path := by
  unfold indexFile at h
  split at h
  · cases h
  · unfold Document.index at h
    simp only at h
    split at h
    · cases h
    · split at h
      · cases h
      · cases h
        rfl

theorem Content.path_of_indexFile {content : Content} {file path : String} {rules : IndexRules}
    {index : FileIndex} (h : (content.indexFile file path rules).result = .ok index) :
    index.path = path := by
  cases content with
  | readable d => exact Document.path_of_indexFile h
  | faulty fault => cases h

/-- There are workers unless their number was chosen, and none or fewer. -/
theorem Settings.workerCount_pos_iff (s : Settings) (processors : Option Int) :
    0 < s.workerCount processors ↔ ∀ n, s.workers = some n → 1 ≤ n := by
  unfold workerCount
  cases hw : s.workers with
  | some n => simp; omega
  | none =>
    cases processors with
    | none => simp
    | some n => simp; split <;> omega

namespace Workspace

variable {w : Workspace} {root : Location} {s : Settings} {processors : Option Int}
  {listener : Option Listener} {files : List (Location × Content)}

/-! ### Paths of files -/

/-- Places are filled once, and names hold no slash. -/
structure IsTree (w : Workspace) : Prop where
  distinct : (w.entries.map (·.1)).Nodup
  named : ∀ e ∈ w.entries, ∀ name ∈ e.1, '/' ∉ name.toList

/-- Different steps make different paths. -/
theorem ofSteps_injOn {steps steps' : List String} (hne : steps ≠ []) (hne' : steps' ≠ [])
    (h : ∀ n ∈ steps, '/' ∉ n.toList) (h' : ∀ n ∈ steps', '/' ∉ n.toList)
    (heq : SlashPath.ofSteps steps = SlashPath.ofSteps steps') : steps = steps' := by
  rw [SlashPath.ofSteps, if_neg hne, SlashPath.ofSteps, if_neg hne', Separated.ofPieces,
    Separated.ofPieces, String.ofList_inj] at heq
  have hsplit : ∀ {ps : List String}, ps ≠ [] → (∀ n ∈ ps, '/' ∉ n.toList) →
      Separated.split '/' (Separated.join '/' (ps.map String.toList)) = ps.map String.toList := by
    intro ps hps hfree
    refine Separated.split_join (by simpa using hps) fun p hp => ?_
    obtain ⟨n, hn, rfl⟩ := List.mem_map.mp hp
    exact hfree n hn
  have hmap := (hsplit hne h).symm.trans ((congrArg _ heq).trans (hsplit hne' h'))
  exact List.map_injective_iff.mpr (fun a b => String.toList_inj.mp) hmap

/-- What is below a root, and where, seen from there. -/
theorem mem_below {e : Location × Entry} :
    e ∈ w.below root ↔ e.1 ≠ [] ∧ (root ++ e.1, e.2) ∈ w.entries := by
  rw [below, List.mem_mergeSort, List.mem_filterMap]
  constructor
  · rintro ⟨⟨place, entry⟩, hmem, hseen⟩
    split at hseen
    · next hbelow =>
      obtain ⟨⟨steps, rfl⟩, hne⟩ := hbelow
      cases hseen
      rw [List.drop_left]
      exact ⟨fun hnil : steps = [] => hne (by rw [hnil, List.append_nil]), hmem⟩
    · cases hseen
  · rintro ⟨hne, hmem⟩
    refine ⟨_, hmem, ?_⟩
    rw [if_pos ⟨List.prefix_append .., fun heq => hne (List.self_eq_append_right.mp heq)⟩,
      List.drop_left]

theorem mem_filesBelow {f : Location × Content} :
    f ∈ w.filesBelow root ↔ f.1 ≠ [] ∧ (root ++ f.1, .file f.2) ∈ w.entries := by
  rw [filesBelow, List.mem_filterMap]
  constructor
  · rintro ⟨⟨place, entry⟩, he, hf⟩
    obtain ⟨content, hcontent, rfl⟩ := Option.map_eq_some_iff.mp hf
    cases entry with
    | directory => cases hcontent
    | file content' =>
      cases hcontent
      exact mem_below.mp he
  · exact fun hf => ⟨(f.1, .file f.2), mem_below.mpr hf, rfl⟩

/-- Collected files are those below the root that some rules leave. -/
theorem exists_spec_of_collect (hfiles : w.collect root s = .ok files) :
    ∃ spec, files = (w.filesBelow root).filter fun f => isCollected s spec f.1 := by
  rw [collect] at hfiles
  generalize (if s.respectIgnore then w.ignoreSpec root else .ok []) = rules at hfiles
  cases rules with
  | error e => cases hfiles
  | ok spec => exact ⟨spec, (Except.ok.inj hfiles).symm⟩

theorem ignoreFile?_of_ne {f : Location × Content} (h : f.1.getLast? ≠ some ignoreFileName) :
    ignoreFile? f = none := if_neg h

/-- Without ignore files all sources are collected. -/
theorem collect_of_filesBelow (hfiles : w.filesBelow root = files)
    (hnone : ∀ f ∈ files, f.1.getLast? ≠ some ignoreFileName) : w.collect root s =
      .ok (files.filter fun f => isCollected s [] f.1) := by
  have hignore : w.ignoreFiles root = [] := by
    rw [ignoreFiles, hfiles, List.filterMap_eq_nil_iff]
    exact fun f hf => ignoreFile?_of_ne (hnone f hf)
  have hspec : w.ignoreSpec root = .ok [] := by
    rw [ignoreSpec, hignore]
    rfl
  rw [collect, hfiles, hspec, ite_self]
  rfl

theorem collect_of_below {entries : List (Location × Entry)} (hbelow : w.below root = entries)
    (hnone : ∀ e ∈ entries, e.1.getLast? ≠ some ignoreFileName) : w.collect root s =
      .ok ((entries.filterMap fun e => e.2.content?.map fun content => (e.1, content)).filter
        fun f => isCollected s [] f.1) := by
  have hfiles : w.filesBelow root = entries.filterMap fun e =>
      e.2.content?.map fun content => (e.1, content) := by rw [filesBelow, hbelow]
  refine collect_of_filesBelow hfiles fun f hf => ?_
  obtain ⟨e, he, hcontent⟩ := List.mem_filterMap.mp hf
  obtain ⟨content, -, rfl⟩ := Option.map_eq_some_iff.mp hcontent
  exact hnone e he

namespace IsTree

theorem named_of_mem_below (h : w.IsTree) {e : Location × Entry} (he : e ∈ w.below root) :
    ∀ name ∈ e.1, '/' ∉ name.toList := fun name hname =>
  h.named _ (mem_below.mp he).2 name (List.mem_append_right root hname)

/-- The places below a root differ. -/
theorem nodup_below (h : w.IsTree) (root : Location) : ((w.below root).map (·.1)).Nodup := by
  let seen? (place : Location) : Option Location :=
    if root <+: place ∧ root ≠ place then some (place.drop root.length) else none
  have hseen : ∀ place place' rest, rest ∈ seen? place → rest ∈ seen? place' → place = place' := by
    intro place place' rest hrest hrest'
    simp only [seen?, Option.mem_def, Option.ite_none_right_eq_some, Option.some.injEq]
      at hrest hrest'
    obtain ⟨⟨⟨steps, rfl⟩, -⟩, hsteps⟩ := hrest
    obtain ⟨⟨⟨steps', rfl⟩, -⟩, hsteps'⟩ := hrest'
    rw [List.drop_left] at hsteps hsteps'
    rw [hsteps, hsteps']
  have hplaces : ((w.entries.map (·.1)).filterMap seen?).Nodup := h.distinct.filterMap hseen
  rw [below, ((List.mergeSort_perm _ _).map _).nodup_iff, List.map_filterMap]
  rw [List.filterMap_map] at hplaces
  refine (List.filterMap_congr fun e _ => ?_) ▸ hplaces
  simp only [Function.comp, seen?]
  split <;> rfl

/-- The paths of the files that a scan collects differ. -/
theorem nodup_collect (h : w.IsTree) (hfiles : w.collect root s = .ok files) :
    (files.map pathOf).Nodup := by
  obtain ⟨spec, rfl⟩ := exists_spec_of_collect hfiles
  refine List.pairwise_map.mpr (List.Pairwise.filter _ (List.pairwise_filterMap.mpr ?_))
  refine (List.pairwise_map.mp (h.nodup_below root)).imp_of_mem ?_
  intro e e' he he' hne f hf f' hf'
  have hplace : ∀ {e : Location × Entry} {f : Location × Content},
      e.2.content?.map (fun content => (e.1, content)) = some f → f.1 = e.1 := by
    rintro e f hf
    obtain ⟨content, -, rfl⟩ := Option.map_eq_some_iff.mp hf
    rfl
  rw [pathOf, pathOf, hplace hf, hplace hf']
  exact fun heq => hne (ofSteps_injOn (mem_below.mp he).1 (mem_below.mp he').1
    (h.named_of_mem_below he) (h.named_of_mem_below he') heq)

end IsTree

/-! ### Scans -/

theorem map_path_finished (index : Location × Content → Except Failure FileIndex)
    (files : List (Location × Content)) :
    (finished index files).map (·.path) = files.map pathOf := by
  rw [finished, List.map_map]
  rfl

/-- A scan sums up what the workers have finished. -/
theorem scanWith_eq (index : Location × Content → Except Failure FileIndex)
    (hfiles : w.collect root s = .ok files) (hworkers : 0 < s.workerCount processors)
    (schedule : Schedule) : w.scanWith index root s processors schedule listener =
      .ok (.ofFinished s.progressEvery listener (schedule.arrange (finished index files))) := by
  rw [scanWith, hfiles]
  exact if_neg hworkers.not_ge

/-- A scan that has a summary for every order in which workers finish.  The summary accounts for the
files, each by its own result, and is the same for all orders, the order of the failures and the
reports of progress apart. -/
def Accounted (scan : Schedule → Except ScanError ScanSummary)
    (index : Location × Content → Except Failure FileIndex) (files : List (Location × Content)) :
    Prop :=
  ∃ summary : Schedule → ScanSummary,
    (∀ schedule, scan schedule = .ok (summary schedule) ∧
      (summary schedule).Accounts pathOf index files) ∧
    ∀ schedule schedule',
      (summary schedule).files = (summary schedule').files ∧
      (summary schedule).skipped = (summary schedule').skipped ∧
      ∀ path, (summary schedule).failures.get? path = (summary schedule').failures.get? path

/-- Workers may index files in any way that puts the path of a file into its index. -/
theorem accounted_scanWith {index : Location × Content → Except Failure FileIndex}
    (hfiles : w.collect root s = .ok files) (hdistinct : (files.map pathOf).Nodup)
    (hworkers : 0 < s.workerCount processors)
    (hnamed : ∀ f ∈ files, ∀ i, index f = .ok i → i.path = pathOf f) :
    Accounted (w.scanWith index root s processors · listener) index files := by
  let summary (schedule : Schedule) : ScanSummary :=
    .ofFinished s.progressEvery listener (schedule.arrange (finished index files))
  have haccounts (schedule : Schedule) : (summary schedule).Accounts pathOf index files :=
    ScanSummary.accounts_of_perm hdistinct hnamed _ _ (schedule.perm _)
  exact ⟨summary, fun schedule => ⟨scanWith_eq index hfiles hworkers schedule, haccounts schedule⟩,
    fun schedule schedule' => (haccounts schedule).agree (haccounts schedule')⟩

theorem accounted_scan (hfiles : w.collect root s = .ok files)
    (hdistinct : (files.map pathOf).Nodup) (hworkers : 0 < s.workerCount processors) :
    Accounted (w.scan root s processors · listener) (s.resultOf root) files :=
  accounted_scanWith hfiles hdistinct hworkers fun _ _ _ hi => Content.path_of_indexFile hi

/-- **A scan accounts for every file it collects**, whatever the order in which the workers
finish them; and what it returns does not depend on that order, the order of the failures and
the reports of progress apart.  The same holds whatever the workers come to with a file, as long
as an index has the path of its file. -/
theorem scan_accounts (hfiles : w.collect root s = .ok files)
    (hdistinct : (files.map pathOf).Nodup) (hworkers : 0 < s.workerCount processors) :
    Accounted (w.scan root s processors · listener) (s.resultOf root) files ∧
      ∀ index : Location × Content → Except Failure FileIndex,
        (∀ f ∈ files, ∀ i, index f = .ok i → i.path = pathOf f) →
        Accounted (w.scanWith index root s processors · listener) index files :=
  ⟨accounted_scan hfiles hdistinct hworkers,
    fun _ hnamed => accounted_scanWith hfiles hdistinct hworkers hnamed⟩

end Workspace

/-! ### A directory with files of every kind -/

namespace Sample

/-- A file without content. -/
def emptyFile : Document := ⟨.ofText "", none⟩

/-- A file with a syntax error. -/
def brokenFile : Document :=
  ⟨.ofText "(", some ⟨{ type := "program", span := ⟨0, 1⟩, flagged := true }, .nil⟩⟩

/-- A file with a name. -/
def plainFile : Document :=
  ⟨.ofText "a", some ⟨{ type := "program", span := ⟨0, 1⟩ },
    .cons { type := "identifier", span := ⟨0, 1⟩ } .nil .nil⟩⟩

/-- Files of every kind, two of them broken and one that may not be read, and a file that is no
source. -/
def mixed : Workspace where
  entries :=
    [(["a", "x.js"], .file (.readable brokenFile)), (["a.js"], .file (.readable brokenFile)),
      (["b.js"], .file (.readable emptyFile)), (["c.js"], .file (.readable plainFile)),
      (["d.txt"], .file (.readable plainFile)), (["e.js"], .file (.faulty .denied))]

/-- The sources among them. -/
def mixedFiles : List (Location × Content) :=
  [(["a", "x.js"], .readable brokenFile), (["a.js"], .readable brokenFile),
    (["b.js"], .readable emptyFile), (["c.js"], .readable plainFile), (["e.js"], .faulty .denied)]

theorem collect_mixed : mixed.collect [] {} = .ok mixedFiles := by
  -- the places are in order already, so there is nothing to sort
  have hbelow : mixed.below [] = mixed.entries := List.mergeSort_of_pairwise (by decide +kernel)
  rw [Workspace.collect_of_below hbelow (by decide +kernel)]
  rfl

end Sample

theorem Workspace.scan_accounts_mixed :
    Sample.mixed.collect [] {} = .ok Sample.mixedFiles ∧ (Sample.mixedFiles.map pathOf).Nodup ∧
      0 < Settings.workerCount {} none ∧
      Settings.resultOf {} [] (["e.js"], .faulty .denied) = .error (.system ⟨.denied, "/e.js"⟩) ∧
      Accounted (Sample.mixed.scan [] {} none · none) (Settings.resultOf {} []) Sample.mixedFiles ∧
      Accounted (Sample.mixed.scanWith (fun _ => .error (.foreign "no memory")) [] {} none · none)
        (fun _ => .error (.foreign "no memory")) Sample.mixedFiles := by
  have hdistinct : (Sample.mixedFiles.map pathOf).Nodup := by decide +kernel
  have hworkers : 0 < Settings.workerCount {} none := by decide
  exact ⟨Sample.collect_mixed, hdistinct, hworkers, rfl,
    (scan_accounts Sample.collect_mixed hdistinct hworkers).1,
    (scan_accounts Sample.collect_mixed hdistinct hworkers).2 _ fun f _ i hi => by cases hi⟩

end ScopeIndex
