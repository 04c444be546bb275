import ScopeIndex.Index.Document

/-!
# The tally of a scan

Files of a scan are finished in no fixed order.  Each finished file was indexed, skipped because it is
empty, or failed.  The tally counts them as they come and reports progress at regular steps; the summary
puts what was indexed and skipped in the order of the paths.

## Main definitions

* `FileOutcome`, `Finished` — what became of a file.
* `Progress`, `Listener` — a report of progress, and who takes it.
* `Tally`, `Tally.add` — the count so far, and one more file.
* `ScanSummary`, `ScanSummary.ofFinished` — the result of a scan.

## References

The classes `ProcessFileResult`, `ScanProgress` and `ScanResult` of jsindex, and the loop of
`scan_directory` over finished files.
-/

namespace ScopeIndex

/-- What became of a file. -/
inductive FileOutcome where
  /-- It was indexed. -/
  | indexed (index : FileIndex)
  /-- It is empty. -/
  | empty
  /-- It could not be indexed. -/
  | failed (failure : Failure)

/-- What became of a file, from the outcome of indexing it. -/
def FileOutcome.ofResult : Except Failure FileIndex → FileOutcome
  | .ok index => indexed index
  | .error (.indexing e) => if e.cause.family = .emptySource then empty else failed (.indexing e)
  | .error failure => failed failure

/-- A file that is done. -/
structure Finished where
  /-- The path of the file, seen from the root of the scan. -/
  path : String
  /-- What became of it. -/
  outcome : FileOutcome

/-- The file at a path, once the outcome of indexing it is known. -/
def Finished.ofResult (path : String) (result : Except Failure FileIndex) : Finished :=
  ⟨path, .ofResult result⟩

/-- A report of progress. -/
structure Progress where
  /-- The number of files of the scan. -/
  total : Nat
  /-- The number of files that are done. -/
  processed : Nat
  /-- The number of those that were indexed. -/
  indexed : Nat
  /-- The number of those that failed. -/
  failed : Nat
  deriving DecidableEq, Repr

/-- Who takes reports of progress.  The answer tells whether a report was taken or refused. -/
abbrev Listener := Progress → Bool

/-- How a scan reports. -/
structure Reporting where
  /-- The number of files of the scan. -/
  total : Nat
  /-- The number of files between two reports. -/
  every : Int
  /-- Who takes the reports, if anybody does. -/
  listener : Option Listener

/-- The count of the files that are done. -/
structure Tally where
  /-- The indexes, in the order in which they came. -/
  files : List FileIndex := []
  /-- The paths of empty files. -/
  skipped : List String := []
  /-- The failures, by path. -/
  failures : Members Failure := []
  /-- The number of files that are done. -/
  processed : Nat := 0
  /-- The reports that were given, oldest first. -/
  reports : List Progress := []
  /-- The reports that were refused. -/
  refused : List Progress := []

namespace Tally

/-- Count a file. -/
def count (t : Tally) (f : Finished) : Tally :=
  let t := { t with processed := t.processed + 1 }
  match f.outcome with
  | .indexed index => { t with files := t.files ++ [index] }
  | .empty => { t with skipped := t.skipped ++ [f.path] }
  | .failed failure => { t with failures := Members.put f.path failure t.failures }

/-- The report that is due, if one is: at every multiple of the step, and for the last file. -/
def due (r : Reporting) (t : Tally) : Option Progress :=
  if (t.processed : Int) % r.every = 0 ∨ t.processed = r.total then
    some ⟨r.total, t.processed, t.files.length, t.failures.length⟩
  else none

/-- Give the report that is due.  A listener that refuses it is noted and changes nothing else. -/
def report (r : Reporting) (t : Tally) : Tally :=
  match r.listener, t.due r with
  | some listener, some progress =>
      { t with
        reports := t.reports ++ [progress]
        refused := if listener progress then t.refused else t.refused ++ [progress] }
  | _, _ => t

/-- Count a file and give the report that is due. -/
def add (r : Reporting) (t : Tally) (f : Finished) : Tally := (t.count f).report r

/-- The tally of finished files in the order in which they came. -/
def ofFinished (r : Reporting) (fs : List Finished) : Tally := fs.foldl (add r) {}

end Tally

/-- The result of a scan. -/
structure ScanSummary where
  /-- The indexes, in the order of their paths. -/
  files : List FileIndex
  /-- The paths of empty files, in order. -/
  skipped : List String
  /-- The failures, by path, in the order in which they came. -/
  failures : Members Failure
  /-- The reports of progress that were given. -/
  reports : List Progress

namespace ScanSummary

/-- The result of a tally. -/
def ofTally (t : Tally) : ScanSummary where
  files := t.files.mergeSort fun a b => a.path ≤ b.path
  skipped := t.skipped.mergeSort fun a b => a ≤ b
  failures := t.failures
  reports := t.reports

/-- The result of finished files in the order in which they came. -/
def ofFinished (every : Int) (listener : Option Listener) (fs : List Finished) : ScanSummary :=
  ofTally (Tally.ofFinished { total := fs.length, every, listener } fs)

end ScanSummary
end ScopeIndex
