import ScopeIndex.Scan.Collect
import ScopeIndex.Scan.Tally

/-!
# Scanning a directory

A scan collects the source files below a directory and indexes each of them on its own.  Workers finish
the files in an order of their own, which is a parameter here.

## Main definitions

* `Settings.workerCount` — the number of workers.
* `Schedule` — the order in which workers finish.
* `Settings.resultOf` — the result of indexing one file of a scan.
* `Workspace.scan` — the result of a scan.

## References

The functions `scan_directory`, `_process_file` and `_num_workers` of jsindex.
-/

namespace ScopeIndex

/-- How a scan indexes sources. -/
def Settings.indexRules (s : Settings) : IndexRules :=
  { tolerant := s.tolerant, marker := s.marker, boundary := .ofTypes s.nodeTypes }

/-- The number of workers: what is chosen, or else one processor less than there are, but at least one;
four if their number is not known. -/
def Settings.workerCount (s : Settings) (processors : Option Int) : Int :=
  match s.workers, processors with
  | some n, _ => n
  | none, some n => if n = 0 then 4 else max 1 (n - 1)
  | none, none => 4

/-- The order in which workers finish files: some permutation of them. -/
structure Schedule where
  /-- The files in the order in which they are done. -/
  arrange : List Finished → List Finished
  /-- Every file is done once. -/
  perm : ∀ fs, (arrange fs).Perm fs

/-- One worker finishes files in the order in which they were collected. -/
def Schedule.inOrder : Schedule := ⟨id, fun fs => .refl fs⟩

/-- Why there is no result of a scan. -/
inductive ScanError where
  /-- An ignore file cannot be read. -/
  | ignoring (error : IgnoreError)
  /-- There are no workers. -/
  | noWorkers
  deriving DecidableEq, Repr

namespace Workspace

/-- The path under which a file of a scan is noted: that from the root of the scan. -/
def pathOf (f : Location × Content) : String := SlashPath.ofSteps f.1

end Workspace

/-- The result of indexing one file of the scan of a directory.  Files are opened by their paths from the
top. -/
def Settings.resultOf (s : Settings) (root : Location) (f : Location × Content) :
    Except Failure FileIndex :=
  (f.2.indexFile (SlashPath.ofPlace (root ++ f.1)) (Workspace.pathOf f) s.indexRules).result

namespace Workspace

/-- Files that workers have indexed by `index`, each on its own. -/
def finished (index : Location × Content → Except Failure FileIndex)
    (files : List (Location × Content)) : List Finished :=
  files.map fun f => .ofResult (pathOf f) (index f)

/-- Scan the directory at a place, where workers index a file by `index`.  Files are collected before
workers are asked for, and whatever a worker comes to is noted. -/
def scanWith (w : Workspace) (index : Location × Content → Except Failure FileIndex) (root : Location)
    (s : Settings) (processors : Option Int) (schedule : Schedule) (listener : Option Listener) :
    Except ScanError ScanSummary :=
  match w.collect root s with
  | .error e => .error (.ignoring e)
  | .ok files =>
      if s.workerCount processors ≤ 0 then .error .noWorkers
      else
        .ok (ScanSummary.ofFinished s.progressEvery listener
          (schedule.arrange (finished index files)))

/-- Scan the directory at a place. -/
def scan (w : Workspace) (root : Location) (s : Settings) (processors : Option Int) (schedule : Schedule)
    (listener : Option Listener) : Except ScanError ScanSummary :=
  w.scanWith (s.resultOf root) root s processors schedule listener

/-- Scan the place that a path names.  Where nothing is there are no files. -/
def scanAt (w : Workspace) (path : String) (s : Settings) (processors : Option Int)
    (schedule : Schedule) (listener : Option Listener) : Except ScanError ScanSummary :=
  w.scan (w.locate path) s processors schedule listener

end Workspace
end ScopeIndex
