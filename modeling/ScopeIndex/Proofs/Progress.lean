import Mathlib
import ScopeIndex.Proofs.Scans

/-!
# Reports of progress

A scan counts the files as they are finished and tells a listener how far it has come: after every
so many files, and after the last one.  The numbers in a report are read off lists that grow while
files come in, in whatever order that is; they are the numbers of the files that have come in so
far.  A listener that refuses a report changes nothing, neither the reports that follow nor the
result of the scan.

## Main definitions

* `Progress.after` — the report after the first so many files.
* `Reporting.isDue` — the moments at which there is one.
* `ReportsOn` — how reports tell of the files that a scan finishes.
* `Workspace.Reported` — a scan that reports on its files, whoever listens.

## Main results

* `Tally.reports_ofFinished` — there is one report for each moment at which one is due.
* `length_filter_isDue` — the number of these moments.
* `Workspace.scan_progress` — **how a scan reports progress, whatever the order and the listener.**
-/

namespace ScopeIndex

/-- The report after the first `k` files. -/
def Progress.after (done : List Finished) (k : Nat) : Progress where
  total := done.length
  processed := k
  indexed := (done.take k).countP fun f => f.index?.isSome
  failed := (done.take k).countP fun f => f.failure?.isSome

/-- Is there a report after `k` files? -/
def Reporting.isDue (r : Reporting) (k : Nat) : Bool := (k : Int) % r.every = 0 ∨ k = r.total

/-- Reports that tell of files in the order in which they are finished. -/
structure ReportsOn (every : Int) (done : List Finished) (reports : List Progress) : Prop where
  /-- There is a report for every so many files, and one for what is left. -/
  count : (reports.length : ℤ) = ⌈(done.length : ℚ) / every⌉
  /-- Reports are given after so many files, and after the last one. -/
  moments : ∀ k, (∃ p ∈ reports, p.processed = k) ↔
    (1 ≤ k ∧ k ≤ done.length) ∧ (every ∣ k ∨ k = done.length)
  /-- Each goes further than those before it. -/
  increasing : reports.Pairwise (·.processed < ·.processed)
  /-- The last one is about all files. -/
  last : ∀ p ∈ reports.getLast?, p.processed = done.length
  /-- The numbers in a report are those of the files that have come in so far. -/
  counts : ∀ p ∈ reports, p.total = done.length ∧
    p.indexed = (done.take p.processed).countP (fun f => f.index?.isSome) ∧
    p.failed = (done.take p.processed).countP (fun f => f.failure?.isSome)
  /-- They do not go down. -/
  growing : reports.Pairwise fun p q => p.indexed ≤ q.indexed ∧ p.failed ≤ q.failed
  /-- No file is counted twice. -/
  bounded : ∀ p ∈ reports, p.indexed + p.failed ≤ p.processed

/-! ### The moments of reports -/

/-- The multiples of a number up to another. -/
theorem countP_dvd_range' (every n : Nat) :
    (List.range' 1 n).countP (fun k => every ∣ k) = n / every := by
  induction n with
  | zero => simp
  | succ n ih =>
    rw [List.range'_1_concat, List.countP_append, ih, Nat.succ_div, List.countP_singleton,
      Nat.add_comm 1 n]
    simp

theorem ceil_succ_div (n : Nat) {every : Nat} (h : 0 < every) :
    ⌈((n + 1 : ℕ) : ℚ) / (every : ℤ)⌉ = (n / every : ℕ) + 1 := by
  have hevery : (0 : ℚ) < (every : ℤ) := by exact_mod_cast h
  have hlow : n / every * every ≤ n := Nat.div_mul_le_self n every
  have hhigh : n + 1 ≤ (n / every + 1) * every := by
    rw [Nat.mul_comm]
    exact Nat.lt_mul_div_succ n h
  rw [Int.ceil_eq_iff, lt_div_iff₀ hevery, div_le_iff₀ hevery]
  constructor
  · push_cast
    rw [add_sub_cancel_right]
    exact_mod_cast Nat.lt_succ_of_le hlow
  · exact_mod_cast hhigh

/-- There are as many moments as there are multiples of the step, and one more for what is left. -/
theorem length_filter_isDue {r : Reporting} (h : 1 ≤ r.every) :
    (((List.range' 1 r.total).filter r.isDue).length : ℤ) = ⌈(r.total : ℚ) / r.every⌉ := by
  obtain ⟨total, every, listener⟩ := r
  obtain ⟨every, rfl⟩ := Int.eq_ofNat_of_zero_le (le_trans zero_le_one h)
  have hpos : 0 < every := Int.ofNat_lt.mp h
  cases total with
  | zero => simp
  | succ n =>
    -- all but the last file are reported on only where the step says so
    have hearlier : (List.range' 1 n).filter (Reporting.isDue ⟨n + 1, every, listener⟩) =
        (List.range' 1 n).filter fun k => every ∣ k := by
      refine List.filter_congr fun k hk => ?_
      have hlt : k ≠ n + 1 := by
        have := List.mem_range'_1.mp hk
        omega
      simp [Reporting.isDue, hlt, Int.natCast_dvd_natCast]
    have hlast : Reporting.isDue ⟨n + 1, every, listener⟩ (1 + n) = true := by
      simp [Reporting.isDue, Nat.add_comm]
    rw [List.range'_1_concat, List.filter_append, hearlier, List.length_append,
      ← List.countP_eq_length_filter, countP_dvd_range', List.filter_singleton, hlast,
      ceil_succ_div n hpos]
    simp

/-! ### The reports of a tally -/

namespace Tally

variable {r : Reporting} {t : Tally} {f : Finished} {fs : List Finished} {listener : Listener}

@[simp] theorem processed_report : (t.report r).processed = t.processed := by
  unfold report
  split <;> rfl

theorem processed_count : (t.count f).processed = t.processed + 1 := by
  unfold count
  cases f.outcome <;> rfl

theorem reports_count : (t.count f).reports = t.reports := by
  unfold count
  cases f.outcome <;> rfl

theorem ofFinished_concat (r : Reporting) (fs : List Finished) (f : Finished) :
    ofFinished r (fs ++ [f]) = (ofFinished r fs).add r f := List.foldl_concat ..

/-- Every file is counted. -/
theorem processed_ofFinished (r : Reporting) (fs : List Finished) :
    (ofFinished r fs).processed = fs.length := by
  induction fs using List.reverseRecOn with
  | nil => rfl
  | append_singleton fs f ih =>
    rw [ofFinished_concat, add, processed_report, processed_count, ih, List.length_append]
    rfl

/-- If the paths of the files differ, then each failure is counted once. -/
theorem length_failures_ofFinished (r : Reporting) (h : (fs.map (·.path)).Nodup) :
    (ofFinished r fs).failures.length = fs.countP fun f => f.failure?.isSome := by
  rw [failures_ofFinished, Members.settle_of_nodup (Finished.nodup_failures h),
    List.length_filterMap_eq_countP]

/-- The report that is due after some files. -/
theorem reports_add (hl : r.listener = some listener)
    (h : ((fs ++ [f]).map (·.path)).Nodup) :
    ((ofFinished r fs).add r f).reports = (ofFinished r fs).reports ++
      if r.isDue (fs.length + 1) then
        [{ Progress.after (fs ++ [f]) (fs.length + 1) with total := r.total }] else [] := by
  have hfiles : ((ofFinished r fs).count f).files.length =
      (fs ++ [f]).countP fun f => f.index?.isSome := by
    rw [← List.length_filterMap_eq_countP, ← files_ofFinished r, ofFinished_concat, add,
      files_report]
  have hfailures : ((ofFinished r fs).count f).failures.length =
      (fs ++ [f]).countP fun f => f.failure?.isSome := by
    rw [← length_failures_ofFinished r h, ofFinished_concat, add, failures_report]
  have htake : (fs ++ [f]).take (fs.length + 1) = fs ++ [f] := by
    rw [List.take_of_length_le]
    simp
  rw [add, report, hl, due, processed_count, processed_ofFinished, hfiles, hfailures]
  by_cases hdue : r.isDue (fs.length + 1) = true
  · rw [if_pos (of_decide_eq_true hdue), if_pos hdue, Progress.after, htake]
    simp only [reports_count]
  · rw [if_neg (fun h => hdue (decide_eq_true h)), if_neg hdue, List.append_nil, reports_count]

/-- There is one report for each moment at which one is due. -/
theorem reports_ofFinished (hl : r.listener = some listener) (h : (fs.map (·.path)).Nodup) :
    (ofFinished r fs).reports = ((List.range' 1 fs.length).filter r.isDue).map fun k =>
      { Progress.after fs k with total := r.total } := by
  induction fs using List.reverseRecOn with
  | nil => rfl
  | append_singleton fs f ih =>
    have hfs : (fs.map (·.path)).Nodup := by
      rw [List.map_append] at h
      exact h.of_append_left
    -- the reports before the last file do not look at it
    have hearlier : ∀ k ∈ (List.range' 1 fs.length).filter r.isDue,
        { Progress.after fs k with total := r.total } =
          { Progress.after (fs ++ [f]) k with total := r.total } := by
      intro k hk
      have hle : k ≤ fs.length := by
        have := List.mem_range'_1.mp (List.mem_of_mem_filter hk)
        omega
      simp [Progress.after, List.take_append_of_le_length hle]
    rw [ofFinished_concat, reports_add hl h, ih hfs, List.map_congr_left hearlier,
      List.length_append, List.length_singleton, List.range'_1_concat, List.filter_append,
      List.map_append, Nat.add_comm 1]
    congr 1
    by_cases hdue : r.isDue (fs.length + 1) = true
    · simp [hdue]
    · simp [hdue]

/-- Where nobody listens there are no reports. -/
theorem reports_ofFinished_none (hl : r.listener = none) (fs : List Finished) :
    (ofFinished r fs).reports = [] := by
  induction fs using List.reverseRecOn with
  | nil => rfl
  | append_singleton fs f ih => rw [ofFinished_concat, add, report, hl, reports_count, ih]

end Tally

/-! ### The reports of a scan -/

/-- A file that failed has no index. -/
theorem Finished.countP_add_countP_le (fs : List Finished) :
    fs.countP (fun f => f.index?.isSome) + fs.countP (fun f => f.failure?.isSome) ≤ fs.length := by
  rw [List.length_eq_countP_add_countP (fun f : Finished => f.index?.isSome)]
  refine Nat.add_le_add_left (List.countP_mono_left fun f _ hf => ?_) _
  obtain ⟨path, outcome⟩ := f
  cases outcome with
  | failed failure => rfl
  | indexed index => cases hf
  | empty => cases hf

namespace ScanSummary

variable {every : Int} {done : List Finished}

theorem reports_ofFinished (every : Int) (listener : Listener) (h : (done.map (·.path)).Nodup) :
    (ofFinished every (some listener) done).reports =
      ((List.range' 1 done.length).filter
        (Reporting.isDue ⟨done.length, every, some listener⟩)).map (Progress.after done) :=
  Tally.reports_ofFinished rfl h

/-- The reports tell of the files in their order. -/
theorem reportsOn_ofFinished (hevery : 1 ≤ every) (listener : Listener)
    (h : (done.map (·.path)).Nodup) :
    ReportsOn every done (ofFinished every (some listener) done).reports := by
  rw [reports_ofFinished every listener h]
  let r : Reporting := ⟨done.length, every, some listener⟩
  have hmoments : ∀ k, k ∈ (List.range' 1 done.length).filter r.isDue ↔
      (1 ≤ k ∧ k ≤ done.length) ∧ (every ∣ k ∨ k = done.length) := by
    intro k
    rw [List.mem_filter, List.mem_range'_1, Reporting.isDue, decide_eq_true_iff,
      Int.dvd_iff_emod_eq_zero]
    exact and_congr (by omega) Iff.rfl
  have hincreasing : ((List.range' 1 done.length).filter r.isDue).Pairwise (· < ·) :=
    List.Pairwise.filter _ List.pairwise_lt_range'
  constructor
  case count => rw [List.length_map]; exact length_filter_isDue (r := r) hevery
  case moments => simpa [Progress.after] using hmoments
  case increasing => exact List.pairwise_map.mpr hincreasing
  case last =>
    intro p hp
    rw [List.getLast?_map] at hp
    obtain ⟨k, hk, rfl⟩ := Option.map_eq_some_iff.mp hp
    obtain ⟨earlier, heq⟩ := List.getLast?_eq_some_iff.mp hk
    have hle := ((hmoments k).mp (List.mem_of_getLast? hk)).1
    -- the number of all files is a moment, and none comes behind it
    have hall := (hmoments done.length).mpr ⟨⟨hle.1.trans hle.2, le_rfl⟩, .inr rfl⟩
    rw [heq] at hincreasing hall
    rcases List.mem_append.mp hall with hmem | hmem
    · have hlt := (List.pairwise_append.mp hincreasing).2.2 _ hmem k List.mem_cons_self
      exact absurd hle.2 hlt.not_ge
    · exact (List.mem_singleton.mp hmem).symm
  case counts =>
    intro p hp
    obtain ⟨k, -, rfl⟩ := List.mem_map.mp hp
    exact ⟨rfl, rfl, rfl⟩
  case growing =>
    refine List.pairwise_map.mpr (hincreasing.imp fun hlt => ?_)
    have hsub := (List.take_prefix_take_left (l := done) hlt.le).sublist
    exact ⟨hsub.countP_le, hsub.countP_le⟩
  case bounded =>
    intro p hp
    obtain ⟨k, -, rfl⟩ := List.mem_map.mp hp
    exact (Finished.countP_add_countP_le _).trans (List.length_take_le k done)

/-- Which reports a listener refuses makes no difference. -/
theorem ofFinished_some_eq (every : Int) (listener listener' : Listener)
    (h : (done.map (·.path)).Nodup) :
    ofFinished every (some listener) done = ofFinished every (some listener') done := by
  have hreports := (reports_ofFinished every listener h).trans
    (reports_ofFinished every listener' h).symm
  simp only [ofFinished, ofTally, Tally.files_ofFinished, Tally.skipped_ofFinished,
    Tally.failures_ofFinished] at hreports ⊢
  rw [hreports]

/-- Without a listener there are no reports, and nothing else is different. -/
theorem ofFinished_none_eq (every : Int) (listener : Option Listener) (done : List Finished) :
    ofFinished every none done = { ofFinished every listener done with reports := [] } := by
  simp only [ofFinished, ofTally, Tally.files_ofFinished, Tally.skipped_ofFinished,
    Tally.failures_ofFinished, Tally.reports_ofFinished_none]

end ScanSummary

namespace Workspace

variable {w : Workspace} {root : Location} {s : Settings} {processors : Option Int}
  {files : List (Location × Content)}

/-- A scan whose reports tell of files in the order in which they are finished.  All listeners are
given the same reports and leave the result as it is, whichever reports they refuse; without one
there are no reports, and the result is the same. -/
def Reported (scan : Option Listener → Except ScanError ScanSummary) (every : Int)
    (done : List Finished) : Prop :=
  ∃ r, (∀ listener, scan (some listener) = .ok r) ∧ ReportsOn every done r.reports ∧
    scan none = .ok { r with reports := [] }

theorem reported_scanWith (htree : w.IsTree) (hfiles : w.collect root s = .ok files)
    (hworkers : 0 < s.workerCount processors) (hevery : 1 ≤ s.progressEvery) (schedule : Schedule)
    (index : Location × Content → Except Failure FileIndex) :
    Reported (w.scanWith index root s processors schedule) s.progressEvery
      (schedule.arrange (finished index files)) := by
  have hdistinct : ((schedule.arrange (finished index files)).map (·.path)).Nodup := by
    rw [((schedule.perm _).map _).nodup_iff, map_path_finished]
    exact htree.nodup_collect hfiles
  refine ⟨.ofFinished s.progressEvery (some fun _ => true)
    (schedule.arrange (finished index files)), fun listener => ?_,
    ScanSummary.reportsOn_ofFinished hevery _ hdistinct, ?_⟩
  · rw [scanWith_eq index hfiles hworkers schedule]
    exact congrArg _ (ScanSummary.ofFinished_some_eq _ _ _ hdistinct)
  · rw [scanWith_eq index hfiles hworkers schedule]
    exact congrArg _ (ScanSummary.ofFinished_none_eq _ _ _)

/-- **How a scan reports progress**, whatever the files, the order in which the workers finish them,
the step and the listener: the reports tell of the files in the order in which they are finished,
and no listener, whichever reports it refuses, is given other reports or changes the result of the
scan.  Without a listener the result is the same.  All this holds whatever workers come to with a
file. -/
theorem scan_progress (htree : w.IsTree) (hfiles : w.collect root s = .ok files)
    (hworkers : 0 < s.workerCount processors) (hevery : 1 ≤ s.progressEvery) (schedule : Schedule) :
    Reported (w.scan root s processors schedule) s.progressEvery
        (schedule.arrange (finished (s.resultOf root) files)) ∧
      ∀ index : Location × Content → Except Failure FileIndex,
        Reported (w.scanWith index root s processors schedule) s.progressEvery
          (schedule.arrange (finished index files)) :=
  ⟨reported_scanWith htree hfiles hworkers hevery schedule _,
    reported_scanWith htree hfiles hworkers hevery schedule⟩

end Workspace

/-! ### Five files and a report for every third -/

namespace Sample

/-- A report for every third file. -/
def thirds : Settings := { progressEvery := 3 }

theorem isTree_mixed : mixed.IsTree := ⟨by decide +kernel, by decide +kernel⟩

theorem collect_mixed_thirds : mixed.collect [] thirds = .ok mixedFiles := collect_mixed

end Sample

theorem Workspace.scan_progress_mixed :
    Sample.mixed.IsTree ∧ Sample.mixed.collect [] Sample.thirds = .ok Sample.mixedFiles ∧
      0 < Sample.thirds.workerCount none ∧ 1 ≤ Sample.thirds.progressEvery ∧
      (finished (Sample.thirds.resultOf []) [(["e.js"], .faulty .denied)]).countP
        (·.failure?.isSome) = 1 ∧
      Reported (Sample.mixed.scan [] Sample.thirds none .inOrder) 3
        (finished (Sample.thirds.resultOf []) Sample.mixedFiles) := by
  have hworkers : 0 < Sample.thirds.workerCount none := by decide
  have hevery : 1 ≤ Sample.thirds.progressEvery := by decide
  exact ⟨Sample.isTree_mixed, Sample.collect_mixed_thirds, hworkers, hevery, rfl,
    (scan_progress Sample.isTree_mixed Sample.collect_mixed_thirds hworkers hevery .inOrder).1⟩

end ScopeIndex
