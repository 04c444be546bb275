import Mathlib
import ScopeIndex.Command.Run
import ScopeIndex.Proofs.Scans

/-!
# What depends on the timing of workers

The failures of a scan stand in the order in which the workers finished the files, and the
command prints them in that order.  So the lines about failures come in an order that depends on
the timing, as soon as two files fail; everything else that the command prints, and its exit
code, are the same for any timing.

## Main definitions

* `CommandSetup.timed` — the command with workers that finish in a given order.
* `Settings.fails` — a file that a scan reports as a failure.
* `CommandSetup.IsCalm` — no directory has two files that fail.
* `CommandResult.Reorders` — two ends of a run that differ in the order of the lines about
  failures at most.

## Main results

* `Workspace.failures_scan` — the failures of a scan, in their order.
* `Gathered.add_reorders`, `Gathered.add_eq` — one source, with two timings.
* `CommandSetup.run_related` — from one source to a run.
* `CommandSetup.run_timing` — **timing changes the order of the lines about failures, and
  nothing else.**
-/

namespace ScopeIndex

/-- The command with workers that finish in a given order. -/
def CommandSetup.timed (setup : CommandSetup) (schedule : Schedule) : CommandSetup :=
  { setup with schedule }

/-- Workers that finish the files from the last to the first. -/
def Schedule.reversed : Schedule := ⟨List.reverse, List.reverse_perm⟩

/-- Does a scan report a file as a failure? -/
def Settings.fails (s : Settings) (root : Location) (f : Location × Content) : Bool :=
  match s.resultOf root f with
  | .ok _ => false
  | .error e => !e.isEmptySource

/-! ### Short lists -/

/-- A list without repeats that reads the same from both ends is short. -/
theorem length_le_one_of_reverse_eq {α : Type} {xs : List α} (hnodup : xs.Nodup)
    (h : xs = xs.reverse) : xs.length ≤ 1 := by
  match xs with
  | [] | [_] => simp
  | a :: b :: rest =>
    have hlast : some a = (b :: rest).getLast? := by
      have hhead := congrArg List.head? h
      rwa [List.head?_reverse, List.head?_cons, List.getLast?_cons_cons] at hhead
    exact absurd (List.mem_of_getLast? hlast.symm) (List.nodup_cons.mp hnodup).1

/-- A short list has one order. -/
theorem eq_of_perm_of_length_le_one {α : Type} {xs ys : List α} (h : xs.Perm ys)
    (hshort : xs.length ≤ 1) : xs = ys := by
  match xs with
  | [] => exact h.nil_eq
  | [_] => exact List.singleton_perm.mp h
  | _ :: _ :: _ => simp at hshort

/-! ### The failures of a scan -/

namespace Workspace

variable {w : Workspace} {root : Location} {s : Settings} {processors : Option Int}
  {listener : Option Listener} {files : List (Location × Content)}

theorem isSome_failure? (s : Settings) (root : Location) (f : Location × Content) :
    (Finished.ofResult (pathOf f) (s.resultOf root f)).failure?.isSome = s.fails root f := by
  unfold Settings.fails
  cases s.resultOf root f with
  | ok index => rfl
  | error e =>
    cases h : e.isEmptySource with
    | true => simp [Finished.ofResult_of_isEmptySource h, Finished.failure?, h]
    | false => simp [Finished.ofResult_of_not_isEmptySource h, Finished.failure?, h]

/-- The failures of a scan stand in the order in which the workers finished. -/
theorem failures_scan (hfiles : w.collect root s = .ok files)
    (hdistinct : (files.map pathOf).Nodup) (hworkers : 0 < s.workerCount processors)
    (schedule : Schedule) : (w.scan root s processors schedule listener).map ScanSummary.failures =
      .ok ((schedule.arrange (finished (s.resultOf root) files)).filterMap Finished.failure?) := by
  have hpaths : ((schedule.arrange (finished (s.resultOf root) files)).map (·.path)).Nodup := by
    rwa [((schedule.perm _).map _).nodup_iff, map_path_finished]
  rw [scan, scanWith_eq _ hfiles hworkers, Except.map, ScanSummary.failures_ofFinished _ _ hpaths]

/-- The order of the failures is the same for any timing if and only if there are not two of
them. -/
theorem failures_scan_eq_iff (hfiles : w.collect root s = .ok files)
    (hdistinct : (files.map pathOf).Nodup) (hworkers : 0 < s.workerCount processors)
    (listener : Option Listener) :
    (∀ schedule schedule',
      (w.scan root s processors schedule listener).map ScanSummary.failures =
        (w.scan root s processors schedule' listener).map ScanSummary.failures) ↔
      files.countP (s.fails root) ≤ 1 := by
  let done := finished (s.resultOf root) files
  have hcount : (done.filterMap Finished.failure?).length = files.countP (s.fails root) := by
    simp only [done, finished, List.length_filterMap_eq_countP, List.countP_map, Function.comp_def,
      isSome_failure?]
  simp only [failures_scan hfiles hdistinct hworkers, Except.ok.injEq, ← hcount]
  constructor
  · intro hall
    have hpaths : (done.map (·.path)).Nodup :=
      (congrArg List.Nodup (map_path_finished _ files)).mpr hdistinct
    have hnodup := (Finished.nodup_failures hpaths).of_map
    refine length_le_one_of_reverse_eq hnodup ?_
    rw [← List.filterMap_reverse]
    exact hall .inOrder .reversed
  · intro hshort schedule schedule'
    have hfailures := fun schedule : Schedule =>
      eq_of_perm_of_length_le_one ((schedule.perm done).symm.filterMap Finished.failure?) hshort
    exact (hfailures schedule).symm.trans (hfailures schedule')

/-- No more is collected than there is. -/
theorem length_collect_le (hfiles : w.collect root s = .ok files) :
    files.length ≤ w.entries.length := by
  obtain ⟨spec, rfl⟩ := exists_spec_of_collect hfiles
  calc _ ≤ (w.filesBelow root).length := List.length_filter_le _ _
    _ ≤ (w.below root).length := List.length_filterMap_le _ _
    _ ≤ w.entries.length := by
      rw [below, List.length_mergeSort]
      exact List.length_filterMap_le _ _

/-- Whether there is a summary does not depend on the timing. -/
theorem IsTree.scan_cases (h : w.IsTree) (root : Location) (s : Settings)
    (processors : Option Int) (listener : Option Listener) :
    (∃ e, ∀ schedule, w.scan root s processors schedule listener = .error e) ∨
      ∃ files, w.collect root s = .ok files ∧ 0 < s.workerCount processors ∧
        Accounted (w.scan root s processors · listener) (s.resultOf root) files := by
  cases hfiles : w.collect root s with
  | error e => exact .inl ⟨.ignoring e, fun schedule => by rw [scan, scanWith, hfiles]⟩
  | ok files =>
    by_cases hworkers : s.workerCount processors ≤ 0
    · exact .inl ⟨.noWorkers, fun schedule => by rw [scan, scanWith, hfiles]; exact if_pos hworkers⟩
    · have hworkers := not_le.mp hworkers
      exact .inr ⟨files, rfl, hworkers, accounted_scan hfiles (h.nodup_collect hfiles) hworkers⟩

end Workspace

/-! ### Gathering -/

/-- A path can be told from what continues it. -/
theorem SlashPath.below_injective (base : String) : Function.Injective (SlashPath.below base) := by
  intro path path' h
  exact (String.append_right_inj _).mp h

/-- The failures of a scan, by their paths from the arguments. -/
def ScanSummary.failuresFrom (r : ScanSummary) (base : String) : Members Failure :=
  r.failures.map fun f => (SlashPath.below base f.1, f.2)

theorem ScanSummary.nodup_keys_failuresFrom {r : ScanSummary} (h : r.failures.keys.Nodup)
    (base : String) : (r.failuresFrom base).keys.Nodup := by
  have hmap := h.map (SlashPath.below_injective base)
  rw [Members.keys, List.map_map] at hmap
  rwa [Members.keys, failuresFrom, List.map_map]

namespace Gathered

/-- Two states of gathering that differ in the order of the failures at most. -/
structure Reorders (g g' : Gathered) : Prop where
  indexes_eq : g.indexes = g'.indexes
  nodup : g.failures.keys.Nodup
  perm : g.failures.Perm g'.failures

/-- Two runs that both die of the same fault, or both go on with what is related. -/
inductive Agree (R : Gathered → Gathered → Prop) :
    Except CommandFault Gathered → Except CommandFault Gathered → Prop
  | dies (fault : CommandFault) : Agree R (.error fault) (.error fault)
  | goes {g g' : Gathered} : R g g' → Agree R (.ok g) (.ok g')

variable {R : Gathered → Gathered → Prop} {setup : CommandSetup} {s : Settings}
  {g g' : Gathered} {schedule schedule' : Schedule}

theorem Reorders.put (h : g.Reorders g') (path : String) (failure : Failure) :
    Reorders { g with failures := Members.put path failure g.failures }
      { g' with failures := Members.put path failure g'.failures } where
  indexes_eq := h.indexes_eq
  nodup := Members.nodup_keys_put h.nodup
  perm := Members.put_perm h.nodup h.perm

/-- The failures of a scan are added by their paths from the arguments. -/
theorem failures_addScan (g : Gathered) (path : String) (r : ScanSummary) :
    (g.addScan path r).failures =
      (r.failuresFrom path).foldl (fun acc m => Members.put m.1 m.2 acc) g.failures := by
  rw [addScan, ScanSummary.failuresFrom, List.foldl_map]

/-- Scans with the same indexes and failures. -/
theorem Reorders.addScan (h : g.Reorders g') {path : String} {r r' : ScanSummary}
    (hfiles : r.files = r'.files) (hnodup : r.failures.keys.Nodup)
    (hperm : r.failures.Perm r'.failures) : (g.addScan path r).Reorders (g'.addScan path r') := by
  constructor
  case indexes_eq => simp only [Gathered.addScan, h.indexes_eq, hfiles]
  case nodup =>
    rw [failures_addScan]
    exact Members.nodup_keys_foldl_put h.nodup
  case perm =>
    rw [failures_addScan, failures_addScan]
    exact Members.foldl_put_perm (ScanSummary.nodup_keys_failuresFrom hnodup path)
      (hperm.map _) h.nodup h.perm

/-- A scan that is added with two timings. -/
theorem add_directory_agree (htree : setup.workspace.IsTree) (path : String) (place : Location)
    (hadd : ∀ files, setup.workspace.collect place s = .ok files →
      0 < s.workerCount setup.processors → ∀ summary : Schedule → ScanSummary,
      (∀ schedule, setup.workspace.scan place s setup.processors schedule none =
          .ok (summary schedule) ∧
        (summary schedule).Accounts Workspace.pathOf (s.resultOf place) files) →
      R (g.addScan path (summary schedule)) (g'.addScan path (summary schedule'))) :
    Agree R (g.add (setup.timed schedule) s (path, .directory place))
      (g'.add (setup.timed schedule') s (path, .directory place)) := by
  simp only [add, CommandSetup.timed]
  obtain ⟨e, hscan⟩ | ⟨files, hfiles, hworkers, summary, hsummary, -⟩ :=
    htree.scan_cases place s setup.processors none
  · rw [hscan, hscan]
    exact .dies (.scan e)
  · beta_reduce at hsummary
    rw [(hsummary schedule).1, (hsummary schedule').1]
    exact .goes (hadd files hfiles hworkers summary hsummary)

/-- One more source, after gathering the same but for the order. -/
theorem add_reorders (htree : setup.workspace.IsTree) (h : g.Reorders g')
    (source : String × Target) : Agree Reorders (g.add (setup.timed schedule) s source)
      (g'.add (setup.timed schedule') s source) := by
  obtain ⟨path, target⟩ := source
  cases target with
  | file content =>
    simp only [add]
    cases (content.indexFile path path s.indexRules).result with
    | ok index => exact .goes ⟨by rw [h.indexes_eq], h.nodup, h.perm⟩
    | error failure =>
      cases failure with
      | indexing e => exact .goes (h.put path (.indexing e))
      | system e => exact .goes (h.put path (.system e))
      | underflow e => exact .dies (.indexing e)
      | foreign words => exact .dies (.foreign words)
  | directory place =>
    refine add_directory_agree htree path place fun files hfiles _ summary hsummary => ?_
    have hdistinct := htree.nodup_collect hfiles
    have haccounts := (hsummary schedule).2
    have haccounts' := (hsummary schedule').2
    exact h.addScan (haccounts.agree haccounts').1 (haccounts.nodup_keys hdistinct)
      (haccounts.failures_perm haccounts' hdistinct)

/-- One more source, if no directory has two files that fail. -/
theorem add_eq (htree : setup.workspace.IsTree)
    (hcalm : ∀ root files, setup.workspace.collect root s = .ok files →
      files.countP (s.fails root) ≤ 1)
    (source : String × Target) :
    Agree (· = ·) (g.add (setup.timed schedule) s source)
      (g.add (setup.timed schedule') s source) := by
  obtain ⟨path, target⟩ := source
  cases target with
  | file content =>
    simp only [add]
    cases addFile g path (content.indexFile path path s.indexRules).result with
    | ok next => exact .goes rfl
    | error fault => exact .dies fault
  | directory place =>
    refine add_directory_agree htree path place fun files hfiles hworkers summary hsummary => ?_
    have hfailures := (Workspace.failures_scan_eq_iff hfiles (htree.nodup_collect hfiles)
      hworkers none).mpr (hcalm place files hfiles) schedule schedule'
    rw [(hsummary schedule).1, (hsummary schedule').1] at hfailures
    have hfiles := ((hsummary schedule).2.agree (hsummary schedule').2).1
    rw [addScan, addScan, hfiles, Except.ok.inj hfailures]

/-- All sources. -/
theorem addAll_agree (hstep : ∀ {g g'} source, R g g' →
      Agree R (g.add (setup.timed schedule) s source) (g'.add (setup.timed schedule') s source))
    (h : R g g') (sources : List (String × Target)) :
    Agree R (g.addAll (setup.timed schedule) s sources)
      (g'.addAll (setup.timed schedule') s sources) := by
  induction sources generalizing g g' with
  | nil => exact .goes h
  | cons source sources ih =>
    have hnext := hstep source h
    simp only [addAll]
    generalize g.add (setup.timed schedule) s source = next at hnext ⊢
    generalize g'.add (setup.timed schedule') s source = next' at hnext ⊢
    cases hnext with
    | dies fault => exact .dies fault
    | goes hnext => exact ih hnext

end Gathered

/-! ### Running the command -/

/-- Two ends of a run that differ in the order of the lines about failures at most. -/
inductive CommandResult.Reorders : CommandResult → CommandResult → Prop
  /-- The ends are the same. -/
  | same (r : CommandResult) : Reorders r r
  /-- The codes and what is printed on the first channel are the same. -/
  | exits (code : Nat) (stdout : String) {g g' : Gathered} (h : g.failures.Perm g'.failures) :
      Reorders (.exits code stdout (Gathered.printed g.stderr))
        (.exits code stdout (Gathered.printed g'.stderr))

theorem Gathered.Reorders.result {g g' : Gathered} (h : g.Reorders g') (line : CommandLine) :
    (g.result line).Reorders (g'.result line) := by
  have hcode : g.failures = [] ↔ g'.failures = [] := by
    rw [← List.length_eq_zero_iff, h.perm.length_eq, List.length_eq_zero_iff]
  have hstdout : g.stdout line = g'.stdout line := by rw [stdout, stdout, h.indexes_eq]
  simp only [Gathered.result, hcode, hstdout]
  exact .exits _ _ h.perm

namespace CommandSetup

variable {setup : CommandSetup}

@[simp] theorem workspace_timed (schedule : Schedule) :
    (setup.timed schedule).workspace = setup.workspace := rfl

@[simp] theorem settings_timed (schedule : Schedule) (config : Option String)
    (tolerant : Option Bool) :
    (setup.timed schedule).settings config tolerant = setup.settings config tolerant := rfl

/-- A run that gathers something prints it. -/
theorem run_eq_result {args : List String} {line : CommandLine} {config : Option String}
    {sources : List (String × Target)} {s : Settings} {g : Gathered}
    (hread : CommandLine.read args = .ok line) (hhelp : line.wantsHelp = false)
    (hconfig : line.configIn setup.workspace = .ok config)
    (hsources : line.sourcesIn setup.workspace = .ok sources)
    (hsettings : setup.settings config line.tolerant = .ok s)
    (hall : Gathered.addAll setup s {} sources = .ok g) : setup.run args = g.result line := by
  simp [run, hread, hhelp, hconfig, hsources, indexSources, hsettings, hall]

section Related

variable {R : Gathered → Gathered → Prop} {S : CommandResult → CommandResult → Prop}
  {schedule schedule' : Schedule}

theorem indexSources_related (hrefl : ∀ r, S r r) (hstart : R {} {})
    (hresult : ∀ {g g'} line, R g g' → S (g.result line) (g'.result line))
    (hstep : ∀ config tolerant s, setup.settings config tolerant = .ok s →
      ∀ {g g' : Gathered} source, R g g' →
        Gathered.Agree R (g.add (setup.timed schedule) s source)
          (g'.add (setup.timed schedule') s source))
    (line : CommandLine) (config : Option String) (sources : List (String × Target)) :
    S ((setup.timed schedule).indexSources line config sources)
      ((setup.timed schedule').indexSources line config sources) := by
  simp only [indexSources, settings_timed]
  cases hsettings : setup.settings config line.tolerant with
  | error e => exact hrefl _
  | ok s =>
    have hall := Gathered.addAll_agree (hstep config line.tolerant s hsettings) hstart sources
    simp only
    generalize Gathered.addAll (setup.timed schedule) s {} sources = done at hall ⊢
    generalize Gathered.addAll (setup.timed schedule') s {} sources = done' at hall ⊢
    cases hall with
    | dies fault => exact hrefl _
    | goes h => exact hresult line h

/-- A relation that every source keeps holds of the ends of two runs. -/
theorem run_related (hrefl : ∀ r, S r r) (hstart : R {} {})
    (hresult : ∀ {g g'} line, R g g' → S (g.result line) (g'.result line))
    (hstep : ∀ config tolerant s, setup.settings config tolerant = .ok s →
      ∀ {g g' : Gathered} source, R g g' →
        Gathered.Agree R (g.add (setup.timed schedule) s source)
          (g'.add (setup.timed schedule') s source))
    (args : List String) :
    S ((setup.timed schedule).run args) ((setup.timed schedule').run args) := by
  simp only [run, workspace_timed]
  cases CommandLine.read args with
  | error e => exact hrefl _
  | ok line =>
    simp only
    split
    · exact hrefl _
    · split
      · exact hrefl _
      · exact hrefl _
      · exact indexSources_related hrefl hstart hresult hstep line _ _

end Related

/-- Does no directory have two files that fail, whatever the command line says about settings? -/
def IsCalm (setup : CommandSetup) : Prop :=
  ∀ config tolerant s, setup.settings config tolerant = .ok s →
    ∀ root files, setup.workspace.collect root s = .ok files → files.countP (s.fails root) ≤ 1

/-- **Timing changes the order of the lines about failures, and nothing else.**  Whatever the
arguments, two runs with different timing end with the same code and print the same on the first
channel; and they print the same on the other one, unless two files of a directory fail.  The
failures of a scan are in the same order for any timing if and only if there are not two of
them. -/
theorem run_timing (htree : setup.workspace.IsTree) :
    (∀ args schedule schedule',
      ((setup.timed schedule).run args).Reorders ((setup.timed schedule').run args)) ∧
    (setup.IsCalm → ∀ args schedule schedule',
      (setup.timed schedule).run args = (setup.timed schedule').run args) ∧
    ∀ root s files listener, setup.workspace.collect root s = .ok files →
      0 < s.workerCount setup.processors →
      ((∀ schedule schedule',
        (setup.workspace.scan root s setup.processors schedule listener).map ScanSummary.failures =
          (setup.workspace.scan root s setup.processors schedule' listener).map
            ScanSummary.failures) ↔
        files.countP (s.fails root) ≤ 1) := by
  refine ⟨fun args schedule schedule' => ?_, fun hcalm args schedule schedule' => ?_,
    fun root s files listener hfiles hworkers => ?_⟩
  · have hstart : Gathered.Reorders {} {} := ⟨rfl, List.nodup_nil, .refl _⟩
    refine run_related .same hstart (fun line h => h.result line) ?_ args
    intro _ _ _ _ _ _ source h
    exact Gathered.add_reorders htree h source
  · have hresult : ∀ {g g' : Gathered} (line : CommandLine), g = g' →
        g.result line = g'.result line := fun line h => by rw [h]
    refine run_related (fun _ => rfl) rfl hresult ?_ args
    rintro config tolerant s hsettings g _ source rfl
    exact Gathered.add_eq htree (hcalm config tolerant s hsettings) source
  · exact Workspace.failures_scan_eq_iff hfiles (htree.nodup_collect hfiles) hworkers listener

end CommandSetup

/-! ### Two broken files -/

namespace Sample

/-- A directory with two broken files. -/
def broken : Workspace where
  entries :=
    [(["p", "a", "x.js"], .file (.readable brokenFile)),
      (["p", "a.js"], .file (.readable brokenFile))]

/-- The two files. -/
def brokenFiles : List (Location × Content) :=
  [(["a", "x.js"], .readable brokenFile), (["a.js"], .readable brokenFile)]

/-- The command in front of the directory. -/
def brokenSetup : CommandSetup := { workspace := broken }

/-- The command next to a directory with a file that may not be read. -/
def loneSetup : CommandSetup where
  workspace := { entries := [(["p", "a.js"], .file (.faulty .denied))], here := ["q"] }

theorem isTree_broken : broken.IsTree := ⟨by decide +kernel, by decide +kernel⟩

theorem isTree_lone : loneSetup.workspace.IsTree := ⟨by decide +kernel, by decide +kernel⟩

theorem isCalm_lone : loneSetup.IsCalm := fun _ _ _ _ _ _ hfiles =>
  List.countP_le_length.trans (Workspace.length_collect_le hfiles)

theorem collect_broken : broken.collect ["p"] {} = .ok brokenFiles := by
  have hbelow : broken.below ["p"] =
      [(["a", "x.js"], .file (.readable brokenFile)), (["a.js"], .file (.readable brokenFile))] :=
    List.mergeSort_of_pairwise (by decide +kernel)
  rw [Workspace.collect_of_below hbelow (by decide +kernel)]
  rfl

/-- A run over the directory, as far as it does not depend on the timing. -/
theorem run_broken (schedule : Schedule) :
    (brokenSetup.timed schedule).run ["p"] =
      Gathered.result (({} : Gathered).addScan "p" (.ofFinished 100 none (schedule.arrange
        (Workspace.finished (Settings.resultOf {} ["p"]) brokenFiles)))) { sources := ["p"] } := by
  have hread : CommandLine.read ["p"] = .ok { sources := ["p"] } := by rfl
  have hconfig : CommandLine.configIn { sources := ["p"] } broken = .ok none := by rfl
  have hsources : CommandLine.sourcesIn { sources := ["p"] } broken =
      .ok [("p", .directory ["p"])] := by rfl
  have hsettings : brokenSetup.settings none none = .ok {} := by rfl
  refine CommandSetup.run_eq_result hread rfl hconfig hsources hsettings ?_
  have hscan := @Workspace.scanWith_eq broken ["p"] {} none none _ (Settings.resultOf {} ["p"])
    collect_broken (by decide) schedule
  simp only [Gathered.addAll, Gathered.add, CommandSetup.timed, brokenSetup, Workspace.scan, hscan]

end Sample

theorem CommandSetup.run_timing_broken :
    Sample.broken.IsTree ∧
      (∀ args schedule schedule', ((Sample.brokenSetup.timed schedule).run args).Reorders
        ((Sample.brokenSetup.timed schedule').run args)) ∧
      ((∀ schedule schedule',
        (Sample.broken.scan ["p"] {} none schedule none).map ScanSummary.failures =
          (Sample.broken.scan ["p"] {} none schedule' none).map ScanSummary.failures) ↔
        Sample.brokenFiles.countP (Settings.fails {} ["p"]) ≤ 1) ∧
      Settings.fails {} ["p"] (["a.js"], .faulty .denied) = true ∧ Sample.loneSetup.IsCalm ∧
      ∀ args schedule schedule', (Sample.loneSetup.timed schedule).run args =
        (Sample.loneSetup.timed schedule').run args := by
  obtain ⟨hrun, -, hscan⟩ := @run_timing Sample.brokenSetup Sample.isTree_broken
  obtain ⟨-, hcalm, -⟩ := @run_timing Sample.loneSetup Sample.isTree_lone
  exact ⟨Sample.isTree_broken, hrun, hscan ["p"] {} _ none Sample.collect_broken (by decide),
    rfl, Sample.isCalm_lone, hcalm Sample.isCalm_lone⟩

/-- The lines about two broken files come in either order. -/
theorem CommandSetup.run_differs_by_timing :
    (Sample.brokenSetup.timed .inOrder).run ["p"] = .exits 1 ""
        ("error: a/x.js: syntax error near line 1\n" ++
          "error: a.js: syntax error near line 1\n") ∧
      (Sample.brokenSetup.timed .reversed).run ["p"] = .exits 1 ""
        ("error: a.js: syntax error near line 1\n" ++
          "error: a/x.js: syntax error near line 1\n") := by
  rw [Sample.run_broken, Sample.run_broken]
  exact ⟨by decide +kernel, by decide +kernel⟩

end ScopeIndex
