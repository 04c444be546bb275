import Mathlib
import ScopeIndex.Proofs.Timing
import ScopeIndex.Proofs.Wording

/-!
# The lines about failures

The command notes a failure under the path by which the file is reached from the arguments.  If the
system does not hand the file over, then the line about it begins with that path.  Otherwise the
line begins with the path that the failure itself names.  These are the same for a file among the
arguments.  For a file that a scan found, the failure names the way from the scanned directory, so
the line does not say which directory that was, and equally named files of two directories give
the same line.

## Main definitions

* `Workspace.Fails` — a file fails that is reached through a source.
* `Workspace.LastFails` — the source that counts when a file is reached through several.
* `Target.isDirect` — a source whose failures name files by their path from the arguments.
* `Failure.isSystem` — the system does not hand the file over.
* `CommandSetup.Proceeds` — arguments with which the command gets to indexing.
* `CommandSetup.CanScan` — a source that does not end the work.
* `Workspace.Tells` — what a code and lines tell of the failures.

## Main results

* `Workspace.Fails.cases` — what a failure is, and how the file is reached.
* `Gathered.add_failures`, `Gathered.addAll_failures` — one source, and all of them.
* `CommandSetup.run_tells` — **every file that fails has a line, which begins with its path
  if and only if the source that counts is direct or the system does not hand the file over.**
-/

namespace ScopeIndex

/-! ### Files that fail -/

/-- Do the failures of a source name files by their path from the arguments?  So it is with a file
and with the directory that the command runs in. -/
def Target.isDirect (path : String) : Target → Bool
  | .file _ => true
  | .directory _ => path = "."

theorem Target.ne_of_isDirect_eq_false {path : String} {target : Target}
    (h : target.isDirect path = false) : path ≠ "." := by
  cases target with
  | file => cases h
  | directory => exact of_decide_eq_false h

/-- Is it that the system does not hand the file over? -/
def Failure.isSystem : Failure → Bool
  | .system _ => true
  | _ => false

theorem SlashPath.slash_mem_lead {base : String} (h : base ≠ ".") : '/' ∈ (lead base).toList := by
  rw [lead, if_neg h]
  split
  · next hlast => exact List.mem_of_getLast? hlast
  · simp

theorem Content.names_of_indexFile {content : Content} {file path : String} {s : Settings}
    {failure : Failure} (h : (content.indexFile file path s.indexRules).result = .error failure) :
    (∃ e, failure = .system e) ∨ failure.Names path := by
  cases content with
  | readable d => exact .inr (Document.names_of_indexFile h)
  | faulty fault =>
    cases h
    exact .inl ⟨_, rfl⟩

namespace Workspace

variable {w : Workspace} {s : Settings} {source first : String × Target} {path : String}
  {failure : Failure} {sources : List (String × Target)}

/-- A file that is reached through a source, by `path` from the arguments, fails.  A scan skips
empty files. -/
inductive Fails (w : Workspace) (s : Settings) : String × Target → String → Failure → Prop
  /-- The source is the file. -/
  | named {path : String} {content : Content} {failure : Failure}
      (h : (content.indexFile path path s.indexRules).result = .error failure) :
      Fails w s (path, .file content) path failure
  /-- The source is a directory with the file. -/
  | found {base : String} {place : Location} {files : List (Location × Content)}
      {f : Location × Content} {failure : Failure} (hfiles : w.collect place s = .ok files)
      (hf : f ∈ files) (h : s.resultOf place f = .error failure)
      (hempty : failure.isEmptySource = false) :
      Fails w s (base, .directory place) (SlashPath.below base (pathOf f)) failure

/-- The source is the last one through which a file that is reached by `path` fails. -/
inductive LastFails (w : Workspace) (s : Settings) :
    List (String × Target) → String × Target → String → Failure → Prop
  | here {source : String × Target} {later : List (String × Target)} {path : String}
      {failure : Failure} (h : w.Fails s source path failure)
      (hlater : ∀ other ∈ later, ∀ e, ¬ w.Fails s other path e) :
      LastFails w s (source :: later) source path failure
  | later {first source : String × Target} {later : List (String × Target)} {path : String}
      {failure : Failure} (h : LastFails w s later source path failure) :
      LastFails w s (first :: later) source path failure

/-- A failure is one of the system, or one that names a path.  The path by which the file is reached
is that one, with the way to the directory in front unless the source is direct. -/
theorem Fails.cases (h : w.Fails s source path failure) :
    (∃ e, failure = .system e) ∨
      ∃ name cause, failure = .ofCause name cause ∧ IsUnmarked cause.text ∧
        path = if source.2.isDirect source.1 then name else SlashPath.lead source.1 ++ name := by
  cases h with
  | @named path _ _ h =>
    refine (Content.names_of_indexFile h).imp_right ?_
    rintro ⟨cause, hcause, htext⟩
    exact ⟨path, cause, hcause, htext, rfl⟩
  | @found base place _ f _ _ _ h _ =>
    refine (Content.names_of_indexFile h).imp_right ?_
    rintro ⟨cause, hcause, htext⟩
    refine ⟨pathOf f, cause, hcause, htext, ?_⟩
    by_cases hbase : base = "."
    · simp [Target.isDirect, SlashPath.below, SlashPath.lead, hbase]
    · simp [Target.isDirect, SlashPath.below, hbase]

theorem LastFails.mem (h : w.LastFails s sources source path failure) : source ∈ sources := by
  induction h with
  | here => exact List.mem_cons_self
  | later _ ih => exact List.mem_cons_of_mem _ ih

theorem LastFails.fails (h : w.LastFails s sources source path failure) :
    w.Fails s source path failure := by
  induction h with
  | here h => exact h
  | later _ ih => exact ih

theorem exists_lastFails_cons_iff :
    (∃ source, w.LastFails s (first :: sources) source path failure) ↔
    (∃ source, w.LastFails s sources source path failure) ∨
      w.Fails s first path failure ∧ ∀ other ∈ sources, ∀ e, ¬ w.Fails s other path e := by
  constructor
  · rintro ⟨source, h⟩
    cases h with
    | here h hlater => exact .inr ⟨h, hlater⟩
    | later h => exact .inl ⟨source, h⟩
  · rintro (⟨source, h⟩ | ⟨h, hlater⟩)
    · exact ⟨source, .later h⟩
    · exact ⟨first, .here h hlater⟩

/-- If a file fails through some source, then there is a last one. -/
theorem exists_lastFails_iff : (∃ source failure, w.LastFails s sources source path failure) ↔
    ∃ source ∈ sources, ∃ failure, w.Fails s source path failure := by
  constructor
  · rintro ⟨source, failure, h⟩
    exact ⟨source, h.mem, failure, h.fails⟩
  · rintro ⟨source, hmem, failure, h⟩
    induction sources generalizing source failure with
    | nil => cases hmem
    | cons first sources ih =>
      by_cases hlater : ∃ other ∈ sources, ∃ e, w.Fails s other path e
      · obtain ⟨other, hother, e, he⟩ := hlater
        obtain ⟨last, e', hlast⟩ := ih other hother e he
        exact ⟨last, e', .later hlast⟩
      · rcases List.mem_cons.mp hmem with rfl | hmem
        · exact ⟨source, failure, .here h fun other hother e he => hlater ⟨other, hother, e, he⟩⟩
        · exact absurd ⟨source, hmem, failure, h⟩ hlater

end Workspace

/-! ### Gathering them -/

/-- Can a source be scanned, if it is a directory? -/
def CommandSetup.CanScan (setup : CommandSetup) (s : Settings) (source : String × Target) : Prop :=
  ∀ place, source.2 = .directory place →
    ∃ r, setup.workspace.scan place s setup.processors setup.schedule none = .ok r

/-- The failures are those of the files that are reached through a source. -/
structure Workspace.IsNews (w : Workspace) (s : Settings) (source : String × Target)
    (news : Members Failure) : Prop where
  nodup : news.keys.Nodup
  get?_iff : ∀ path failure, news.get? path = some failure ↔ w.Fails s source path failure

namespace Workspace

variable {w : Workspace} {s : Settings} {base : String} {content : Content} {place : Location}

theorem isNews_nil {index : FileIndex}
    (h : (content.indexFile base base s.indexRules).result = .ok index) :
    w.IsNews s (base, .file content) [] where
  nodup := List.nodup_nil
  get?_iff path failure := by
    refine iff_of_false (by simp [Members.get?]) fun hfails => ?_
    cases hfails with
    | named herror =>
      rw [h] at herror
      cases herror

theorem isNews_singleton {failure : Failure}
    (h : (content.indexFile base base s.indexRules).result = .error failure) :
    w.IsNews s (base, .file content) [(base, failure)] := by
  have hnodup : (Members.keys [(base, failure)]).Nodup := List.nodup_singleton base
  refine ⟨hnodup, fun path failure' => ?_⟩
  rw [Members.get?_eq_some_iff hnodup, List.mem_singleton, Prod.mk.injEq]
  constructor
  · rintro ⟨rfl, rfl⟩
    exact .named h
  · intro hfails
    cases hfails with
    | named herror =>
      rw [h] at herror
      exact ⟨rfl, (Except.error.inj herror).symm⟩

theorem IsTree.isNews_failuresFrom (htree : w.IsTree) {files : List (Location × Content)}
    {r : ScanSummary} (hfiles : w.collect place s = .ok files)
    (haccounts : r.Accounts pathOf (s.resultOf place) files) (base : String) :
    w.IsNews s (base, .directory place) (r.failuresFrom base) := by
  have hkeys := haccounts.nodup_keys (htree.nodup_collect hfiles)
  have hnodup := ScanSummary.nodup_keys_failuresFrom hkeys base
  refine ⟨hnodup, fun path failure => ?_⟩
  rw [Members.get?_eq_some_iff hnodup, ScanSummary.failuresFrom, List.mem_map]
  constructor
  · rintro ⟨⟨name, failure'⟩, hmem, heq⟩
    rw [← Members.get?_eq_some_iff hkeys, haccounts.get?_failures] at hmem
    obtain ⟨f, hf, rfl, hresult, hempty⟩ := hmem
    cases heq
    exact .found hfiles hf hresult hempty
  · intro hfails
    cases hfails with
    | @found _ _ files' f _ hfiles' hf hresult hempty =>
      obtain rfl := Except.ok.inj (hfiles.symm.trans hfiles')
      refine ⟨(pathOf f, failure), ?_, rfl⟩
      rw [← Members.get?_eq_some_iff hkeys, haccounts.get?_failures]
      exact ⟨f, hf, rfl, hresult, hempty⟩

end Workspace

namespace Gathered

variable {setup : CommandSetup} {s : Settings} {g : Gathered} {source : String × Target}
  {sources : List (String × Target)}

/-- A source that can be scanned, or is a file, adds its failures. -/
theorem add_eq_ok (htree : setup.workspace.IsTree)
    (hscan : setup.CanScan s source) (g : Gathered) : ∃ (g' : Gathered) (news : Members Failure),
      g.add setup s source = .ok g' ∧ setup.workspace.IsNews s source news ∧
      g'.failures = news.foldl (fun acc m => Members.put m.1 m.2 acc) g.failures := by
  obtain ⟨base, target⟩ := source
  cases target with
  | file content =>
    simp only [add]
    cases hresult : (content.indexFile base base s.indexRules).result with
    | ok index => exact ⟨_, [], rfl, Workspace.isNews_nil hresult, rfl⟩
    | error failure =>
      have hnews := Workspace.isNews_singleton (w := setup.workspace) hresult
      -- failures of either kind are collected
      obtain ⟨e, rfl⟩ | ⟨cause, rfl, -⟩ := Content.names_of_indexFile hresult
      · exact ⟨_, _, rfl, hnews, rfl⟩
      · exact ⟨_, _, rfl, hnews, rfl⟩
  | directory place =>
    obtain ⟨r, hr⟩ := hscan place rfl
    obtain ⟨e, herror⟩ | ⟨files, hfiles, -, summary, hsummary, -⟩ :=
      htree.scan_cases place s setup.processors none
    · rw [herror] at hr
      cases hr
    · obtain ⟨hscan, haccounts⟩ := hsummary setup.schedule
      exact ⟨g.addScan base _, _, by simp only [add, hscan],
        htree.isNews_failuresFrom hfiles haccounts base, failures_addScan g base _⟩

/-- One more source: what fails through it counts before what failed already. -/
theorem add_failures (htree : setup.workspace.IsTree)
    (hscan : setup.CanScan s source) (hnodup : g.failures.keys.Nodup) :
    ∃ g', g.add setup s source = .ok g' ∧ g'.failures.keys.Nodup ∧
      ∀ path failure, g'.failures.get? path = some failure ↔
        setup.workspace.Fails s source path failure ∨
          (∀ e, ¬ setup.workspace.Fails s source path e) ∧
            g.failures.get? path = some failure := by
  obtain ⟨g', news, hadd, ⟨hnews, hget⟩, hfailures⟩ := add_eq_ok htree hscan g
  refine ⟨g', hadd, ?_, fun path failure => ?_⟩
  · rw [hfailures]
    exact Members.nodup_keys_foldl_put hnodup
  · have hnone : news.get? path = none ↔ ∀ e, ¬ setup.workspace.Fails s source path e := by
      rw [Option.eq_none_iff_forall_ne_some]
      exact forall_congr' fun e => not_congr (hget path e)
    rw [hfailures, Members.get?_foldl_put hnews, Option.or_eq_some_iff, hget, hnone]

/-- All sources: the last one through which a file fails counts. -/
theorem addAll_failures (htree : setup.workspace.IsTree)
    (hscans : ∀ source ∈ sources, setup.CanScan s source) (hnodup : g.failures.keys.Nodup) :
    ∃ g', g.addAll setup s sources = .ok g' ∧ g'.failures.keys.Nodup ∧
      ∀ path failure, g'.failures.get? path = some failure ↔
        (∃ source, setup.workspace.LastFails s sources source path failure) ∨
          (∀ source ∈ sources, ∀ e, ¬ setup.workspace.Fails s source path e) ∧
            g.failures.get? path = some failure := by
  induction sources generalizing g with
  | nil =>
    refine ⟨g, rfl, hnodup, fun path failure => ?_⟩
    have hnone : ¬ ∃ source, setup.workspace.LastFails s [] source path failure := by
      rintro ⟨source, hlast⟩
      cases hlast
    simp [hnone]
  | cons first sources ih =>
    obtain ⟨g₁, hadd, hnodup₁, hget₁⟩ :=
      add_failures htree (hscans first List.mem_cons_self) hnodup
    obtain ⟨g', hall, hnodup', hget'⟩ :=
      ih (fun source hsource => hscans source (List.mem_cons_of_mem _ hsource)) hnodup₁
    refine ⟨g', by rw [addAll, hadd]; exact hall, hnodup', fun path failure => ?_⟩
    rw [hget', hget₁, Workspace.exists_lastFails_cons_iff, List.forall_mem_cons]
    tauto

/-- A directory that cannot be scanned ends the work. -/
theorem add_eq_error (h : ¬ setup.CanScan s source) (g : Gathered) :
    ∃ e, g.add setup s source = .error (.scan e) := by
  obtain ⟨base, target⟩ := source
  cases target with
  | file d => exact absurd (fun _ hplace => by cases hplace) h
  | directory place =>
    simp only [add]
    cases hscan : setup.workspace.scan place s setup.processors setup.schedule none with
    | ok r =>
      refine absurd ?_ h
      rintro _ ⟨⟩
      exact ⟨r, hscan⟩
    | error e => exact ⟨e, rfl⟩

/-- Nothing but that ends it: files before such a directory do not. -/
theorem addAll_eq_error (htree : setup.workspace.IsTree)
    (h : ∃ source ∈ sources, ¬ setup.CanScan s source) :
    ∃ e, g.addAll setup s sources = .error (.scan e) := by
  induction sources generalizing g with
  | nil =>
    obtain ⟨_, hsource, -⟩ := h
    cases hsource
  | cons first sources ih =>
    rw [addAll]
    by_cases hfirst : setup.CanScan s first
    · obtain ⟨g', -, hadd, -⟩ := add_eq_ok htree hfirst g
      obtain ⟨source, hsource, hscan⟩ := h
      have hlater : source ∈ sources := by
        rcases List.mem_cons.mp hsource with rfl | hlater
        · exact absurd hfirst hscan
        · exact hlater
      rw [hadd]
      exact ih ⟨source, hlater, hscan⟩
    · obtain ⟨e, hadd⟩ := add_eq_error hfirst g
      rw [hadd]
      exact ⟨e, rfl⟩

end Gathered

/-! ### What is printed about a failure -/

theorem ControlSequence.strip_eq_self (kind : ControlSequence) {cs : List Char}
    (h : '\x1b' ∉ cs) : kind.strip cs = cs := by
  fun_induction strip kind cs with
  | case1 => rfl
  | case2 | case3 => exact absurd List.mem_cons_self h
  | case4 c cs _ ih => rw [ih fun hmem => h (List.mem_cons_of_mem _ hmem)]

theorem Lines.joinReturns_eq_self {cs : List Char} (h : '\r' ∉ cs) : joinReturns cs = cs := by
  induction cs with
  | nil => rfl
  | cons c cs ih =>
    rw [List.mem_cons, not_or] at h
    rw [joinReturns, ih h.2]
    exact fun _ heq _ => h.1 heq.symm

/-- A text without escapes and carriage returns is printed as it is. -/
theorem Gathered.printed_eq_self {text : String} (hescape : '\x1b' ∉ text.toList)
    (hreturn : '\r' ∉ text.toList) : printed text = text := by
  rw [printed, ControlSequence.strip_eq_self _ hescape, Lines.joinReturns_eq_self hreturn,
    String.ofList_toList]

namespace Workspace.Fails

variable {w : Workspace} {s : Settings} {source source' : String × Target} {path path' : String}
  {failure failure' : Failure}

/-- The line begins with the path just if the source is direct or the failure is one of the
system. -/
theorem begins_iff (h : w.Fails s source path failure) :
    ("error: " ++ path).toList <+: (Gathered.failureLine path failure).toList ↔
      source.2.isDirect source.1 = true ∨ failure.isSystem = true := by
  simp only [Gathered.failureLine, String.toList_append, List.append_assoc,
    List.prefix_append_right_inj]
  obtain ⟨e, rfl⟩ | ⟨name, cause, rfl, htext, hpath⟩ := h.cases
  · refine iff_of_true ?_ (.inr rfl)
    rw [Gathered.toList_told_system, List.append_assoc]
    exact List.prefix_append _ _
  · cases hdirect : source.2.isDirect source.1 with
    | true =>
      rw [hdirect, if_pos rfl] at hpath
      rw [hpath]
      exact iff_of_true
        ((Failure.name_prefix_message name cause).trans (List.prefix_append _ _)) (.inl rfl)
    | false =>
      rw [hdirect, if_neg Bool.false_ne_true] at hpath
      refine iff_of_false (fun hbegins => ?_) (by simp [Failure.isSystem, Failure.ofCause])
      -- the path has more slashes than the line
      have hcount := hbegins.sublist.count_le '/'
      have hlead : 0 < (SlashPath.lead source.1).toList.count '/' :=
        List.count_pos_iff.mpr (SlashPath.slash_mem_lead (Target.ne_of_isDirect_eq_false hdirect))
      have htold : Gathered.told path (.ofCause name cause) =
          (Failure.ofCause name cause).message := rfl
      have hend : "\n".toList.count '/' = 0 := rfl
      rw [htold, List.count_append, Failure.count_slash_message htext, hend, hpath,
        String.toList_append, List.count_append] at hcount
      omega

/-- Files with the same line fail otherwise than by the system.  They are reached through two
sources, and not both are direct. -/
theorem sources_of_line_eq (h : w.Fails s source path failure)
    (h' : w.Fails s source' path' failure')
    (hline : Gathered.failureLine path failure = Gathered.failureLine path' failure')
    (hne : path ≠ path') : (failure.isSystem = false ∧ failure'.isSystem = false) ∧
      source ≠ source' ∧
      ¬ (source.2.isDirect source.1 = true ∧ source'.2.isDirect source'.1 = true) := by
  have htold : Gathered.told path failure = Gathered.told path' failure' :=
    (String.append_right_inj _).mp ((String.append_left_inj _).mp hline)
  obtain ⟨e, rfl⟩ | ⟨name, cause, rfl, htext, hpath⟩ := h.cases <;>
    obtain ⟨e', rfl⟩ | ⟨name', cause', rfl, htext', hpath'⟩ := h'.cases
  · exact absurd (Gathered.path_eq_of_told_system_eq htold) hne
  · exact absurd htold (Gathered.told_system_ne_message htext')
  · exact absurd htold.symm (Gathered.told_system_ne_message htext)
  · obtain rfl := Failure.name_eq_of_message_eq htext htext' htold
    refine ⟨⟨rfl, rfl⟩, ?_, ?_⟩
    · rintro rfl
      exact hne (hpath.trans hpath'.symm)
    · rintro ⟨hdirect, hdirect'⟩
      rw [if_pos hdirect] at hpath
      rw [if_pos hdirect'] at hpath'
      exact hne (hpath.trans hpath'.symm)

/-- A line holds no escape and no carriage return unless the path does. -/
theorem not_mem_line {c : Char} (h : w.Fails s source path failure) (hc : c ∈ ['\x1b', '\r'])
    (hpath : c ∉ path.toList) : c ∉ (Gathered.failureLine path failure).toList := by
  obtain ⟨hmark, hcontrol, hbefore, hcolon, hend⟩ : c ∈ marks ∧ c.toNat < 32 ∧
      c ∉ "error: ".toList ∧ c ∉ [':', ' '] ∧ c ∉ "\n".toList := by
    simp only [List.mem_cons, List.not_mem_nil, or_false] at hc
    rcases hc with rfl | rfl <;> decide
  have htold : c ∉ (Gathered.told path failure).toList := by
    intro hmem
    obtain ⟨e, rfl⟩ | ⟨name, cause, rfl, htext, heq⟩ := h.cases
    · rcases Gathered.mem_told_system hmem with hmem | hle
      · exact hpath hmem
      · omega
    · rcases Failure.mem_message hmem with hmem | hmem | hmem
      · refine hpath ?_
        rw [heq]
        split
        · exact hmem
        · rw [String.toList_append]
          exact List.mem_append_right _ hmem
      · exact hcolon hmem
      · exact isUnmarked_iff.mp htext c hmark hmem
  simp only [Gathered.failureLine, String.toList_append, List.mem_append, not_or]
  exact ⟨⟨hbefore, htold⟩, hend⟩

end Workspace.Fails

/-! ### What a run tells -/

/-- What a code, and lines by the paths of files, tell of the failures. -/
structure Workspace.Tells (w : Workspace) (s : Settings) (sources : List (String × Target))
    (code : Nat) (lines : Members String) : Prop where
  /-- The code is one if a file fails. -/
  code_eq_one_iff : code = 1 ↔ ∃ source ∈ sources, ∃ path failure, w.Fails s source path failure
  /-- Else it is zero. -/
  code_le_one : code ≤ 1
  /-- There is a line for every file that fails, and for no other. -/
  mem_keys_iff : ∀ path, path ∈ lines.keys ↔
    ∃ source ∈ sources, ∃ failure, w.Fails s source path failure
  /-- There is no second one. -/
  nodup_keys : lines.keys.Nodup
  /-- The line is about the last failure.  It begins with the path if the source of that one is
  direct or the system does not hand the file over. -/
  line_of_last : ∀ {source path failure}, w.LastFails s sources source path failure →
    ∀ {line}, (path, line) ∈ lines → line = Gathered.failureLine path failure ∧
      (("error: " ++ path).toList <+: line.toList ↔
        source.2.isDirect source.1 = true ∨ failure.isSystem = true)
  /-- Two files with the same line are both handed over.  They are reached through two sources,
  and not both are direct. -/
  sources_of_line_eq : ∀ {source source' path path' failure failure'},
    w.LastFails s sources source path failure → w.LastFails s sources source' path' failure' →
    ∀ {line}, (path, line) ∈ lines → (path', line) ∈ lines → path ≠ path' →
      (failure.isSystem = false ∧ failure'.isSystem = false) ∧ source ≠ source' ∧
        ¬ (source.2.isDirect source.1 = true ∧ source'.2.isDirect source'.1 = true)
  /-- Lines about paths without escapes and carriage returns are printed as they are. -/
  printed_eq : (∀ path ∈ lines.keys, '\x1b' ∉ path.toList ∧ '\r' ∉ path.toList) →
    Gathered.printed (String.join (lines.map (·.2))) = String.join (lines.map (·.2))

namespace Gathered

variable {w : Workspace} {s : Settings} {sources : List (String × Target)} {g : Gathered}
  {source : String × Target} {path line : String} {failure : Failure}

/-- The lines about the failures, by the paths under which these are noted. -/
def lines (g : Gathered) : Members String := g.failures.map fun f => (f.1, failureLine f.1 f.2)

theorem keys_lines (g : Gathered) : g.lines.keys = g.failures.keys := by
  rw [Members.keys, lines, List.map_map]
  rfl

theorem stderr_eq (g : Gathered) : g.stderr = String.join (g.lines.map (·.2)) := by
  rw [stderr, lines, List.map_map]
  rfl

/-- The failures that have been noted are those of the sources. -/
structure Notes (g : Gathered) (w : Workspace) (s : Settings) (sources : List (String × Target)) :
    Prop where
  nodup : g.failures.keys.Nodup
  get?_iff : ∀ path failure, g.failures.get? path = some failure ↔
    ∃ source, w.LastFails s sources source path failure

namespace Notes

theorem mem_iff (h : g.Notes w s sources) : (path, failure) ∈ g.failures ↔
    ∃ source, w.LastFails s sources source path failure := by
  rw [← Members.get?_eq_some_iff h.nodup, h.get?_iff]

theorem mem_keys_iff (h : g.Notes w s sources) : path ∈ g.lines.keys ↔
    ∃ source ∈ sources, ∃ failure, w.Fails s source path failure := by
  rw [keys_lines, ← Workspace.exists_lastFails_iff, exists_comm]
  simp [Members.keys, h.mem_iff]

theorem code_eq_one_iff (h : g.Notes w s sources) : (if g.failures = [] then 0 else 1) = 1 ↔
    ∃ source ∈ sources, ∃ path failure, w.Fails s source path failure := by
  constructor
  · intro hcode
    have hne : g.failures ≠ [] := fun hnil => by simp [hnil] at hcode
    obtain ⟨⟨path, failure⟩, hmem⟩ := List.exists_mem_of_ne_nil _ hne
    obtain ⟨source, hlast⟩ := h.mem_iff.mp hmem
    exact ⟨source, hlast.mem, path, failure, hlast.fails⟩
  · rintro ⟨source, hsource, path, failure, hfails⟩
    have hkey : path ∈ g.failures.keys := by
      rw [← keys_lines, h.mem_keys_iff]
      exact ⟨source, hsource, failure, hfails⟩
    have hne : g.failures ≠ [] := by
      rintro hnil
      rw [hnil] at hkey
      cases hkey
    exact if_neg hne

/-- The line about a file is about the failure that counts. -/
theorem line_eq (h : g.Notes w s sources) (hlast : w.LastFails s sources source path failure)
    (hline : (path, line) ∈ g.lines) : line = failureLine path failure := by
  obtain ⟨⟨_, failure'⟩, hmem, heq⟩ := List.mem_map.mp hline
  cases heq
  have hsame := (Members.get?_eq_some_iff h.nodup).mpr hmem
  rw [(h.get?_iff _ failure).mpr ⟨source, hlast⟩] at hsame
  cases hsame
  rfl

/-- The lines hold no escapes and carriage returns if the paths do not. -/
theorem not_mem_join (h : g.Notes w s sources) {c : Char} (hc : c ∈ ['\x1b', '\r'])
    (hpaths : ∀ path ∈ g.lines.keys, c ∉ path.toList) :
    c ∉ (String.join (g.lines.map (·.2))).toList := by
  intro hmem
  rw [String.toList_join, List.mem_flatMap] at hmem
  obtain ⟨_, htext, hmem⟩ := hmem
  obtain ⟨⟨path, line⟩, hline, rfl⟩ := List.mem_map.mp htext
  have hkey : path ∈ g.lines.keys := List.mem_map.mpr ⟨(path, line), hline, rfl⟩
  obtain ⟨source, failure, hlast⟩ := Workspace.exists_lastFails_iff.mpr (h.mem_keys_iff.mp hkey)
  obtain rfl := h.line_eq hlast hline
  exact hlast.fails.not_mem_line hc (hpaths path hkey) hmem

/-- What has been gathered tells of the failures. -/
theorem tells (h : g.Notes w s sources) :
    w.Tells s sources (if g.failures = [] then 0 else 1) g.lines where
  code_eq_one_iff := h.code_eq_one_iff
  code_le_one := by split <;> omega
  mem_keys_iff _ := h.mem_keys_iff
  nodup_keys := by
    rw [keys_lines]
    exact h.nodup
  line_of_last hlast _ hline := by
    obtain rfl := h.line_eq hlast hline
    exact ⟨rfl, hlast.fails.begins_iff⟩
  sources_of_line_eq hlast hlast' _ hline hline' hne := by
    have heq := (h.line_eq hlast hline).symm.trans (h.line_eq hlast' hline')
    exact hlast.fails.sources_of_line_eq hlast'.fails heq hne
  printed_eq hpaths := printed_eq_self
    (h.not_mem_join (by decide) fun path hpath => (hpaths path hpath).1)
    (h.not_mem_join (by decide) fun path hpath => (hpaths path hpath).2)

end Notes
end Gathered

namespace CommandSetup

/-- The arguments ask for sources to be indexed, which are there, and the settings can be
loaded. -/
structure Proceeds (setup : CommandSetup) (args : List String) (line : CommandLine)
    (s : Settings) (sources : List (String × Target)) : Prop where
  read_eq : CommandLine.read args = .ok line
  wantsHelp_eq : line.wantsHelp = false
  exists_config : ∃ config, line.configIn setup.workspace = .ok config ∧
    setup.settings config line.tolerant = .ok s
  sourcesIn_eq : line.sourcesIn setup.workspace = .ok sources

variable {setup : CommandSetup} {args : List String} {line : CommandLine} {s : Settings}
  {sources : List (String × Target)}

/-- A run that cannot gather everything dies. -/
theorem Proceeds.run_eq_dies (h : setup.Proceeds args line s sources) {fault : CommandFault}
    (hall : Gathered.addAll setup s {} sources = .error fault) : setup.run args = .dies fault := by
  obtain ⟨config, hconfig, hsettings⟩ := h.exists_config
  simp [run, h.read_eq, h.wantsHelp_eq, hconfig, h.sourcesIn_eq, indexSources, hsettings, hall]

/-- **Every file that fails has a line, which begins with its path if and only if the source that
counts is direct or the system does not hand the file over.**  The command ends with code one just
if a file fails.  The last source through which a file fails counts; it is direct if it is the
file, or the directory that the command runs in.  So two files have the same line only if both are
handed over, they are reached through two sources, and one of these is another directory.  All
this holds unless a directory cannot be scanned; then the command dies of that. -/
theorem run_tells (htree : setup.workspace.IsTree) (h : setup.Proceeds args line s sources) :
    ((∀ source ∈ sources, setup.CanScan s source) →
      ∃ (code : Nat) (stdout : String) (lines : Members String),
        setup.run args =
          .exits code stdout (Gathered.printed (String.join (lines.map (·.2)))) ∧
        setup.workspace.Tells s sources code lines) ∧
    ((∃ source ∈ sources, ¬ setup.CanScan s source) →
      ∃ e, setup.run args = .dies (.scan e)) := by
  constructor
  · intro hscans
    obtain ⟨config, hconfig, hsettings⟩ := h.exists_config
    have hstart : (Members.keys ({} : Gathered).failures).Nodup := List.nodup_nil
    obtain ⟨g, hall, hnodup, hget⟩ := Gathered.addAll_failures htree hscans hstart
    have hnotes : g.Notes setup.workspace s sources := by
      refine ⟨hnodup, fun path failure => ?_⟩
      rw [hget]
      simp [Members.get?]
    have hrun := run_eq_result h.read_eq h.wantsHelp_eq hconfig h.sourcesIn_eq hsettings hall
    rw [Gathered.result, Gathered.stderr_eq] at hrun
    exact ⟨_, _, g.lines, hrun, hnotes.tells⟩
  · intro hscan
    obtain ⟨e, hall⟩ := Gathered.addAll_eq_error htree hscan
    exact ⟨e, h.run_eq_dies hall⟩

end CommandSetup

/-! ### Files of the same name -/

namespace Sample

/-- A directory with a broken file, and one with a file of the same name that may not be read, seen
from the directory above both. -/
def guarded : CommandSetup where
  workspace :=
    { entries :=
        [(["w", "p", "a.js"], .file (.readable brokenFile)),
          (["w", "q", "a.js"], .file (.faulty .denied))]
      here := ["w"] }

/-- The broken file by its place, and the other directory. -/
def guardedSources : List (String × Target) :=
  [("/w/p/a.js", .file (.readable brokenFile)), ("q", .directory ["w", "q"])]

theorem isTree_guarded : guarded.workspace.IsTree := ⟨by decide +kernel, by decide +kernel⟩

theorem collect_guarded :
    guarded.workspace.collect ["w", "q"] {} = .ok [(["a.js"], .faulty .denied)] := by
  have hbelow : guarded.workspace.below ["w", "q"] = [(["a.js"], .file (.faulty .denied))] :=
    List.mergeSort_of_pairwise (by decide +kernel)
  rw [Workspace.collect_of_below hbelow (by decide +kernel)]
  rfl

end Sample

/-- Both files fail: one is named by its place from the top, and a scan finds the other. -/
theorem CommandSetup.run_tells_guarded :
    Sample.guarded.workspace.IsTree ∧
      Sample.guarded.Proceeds ["/w/p/a.js", "q"] { sources := ["/w/p/a.js", "q"] } {}
        Sample.guardedSources ∧
      Sample.guarded.workspace.Fails {} ("q", .directory ["w", "q"]) "q/a.js"
        (.system ⟨.denied, "/w/q/a.js"⟩) ∧
      ∃ (code : Nat) (stdout : String) (lines : Members String),
        Sample.guarded.run ["/w/p/a.js", "q"] =
          .exits code stdout (Gathered.printed (String.join (lines.map (·.2)))) ∧
        Sample.guarded.workspace.Tells {} Sample.guardedSources code lines := by
  have hproceeds : Sample.guarded.Proceeds ["/w/p/a.js", "q"] { sources := ["/w/p/a.js", "q"] } {}
      Sample.guardedSources :=
    ⟨by rfl, by rfl, ⟨none, by rfl, by rfl⟩, by rfl⟩
  refine ⟨Sample.isTree_guarded, hproceeds,
    .found Sample.collect_guarded List.mem_cons_self rfl rfl,
    (run_tells Sample.isTree_guarded hproceeds).1 ?_⟩
  have hworkers : 0 < Settings.workerCount {} Sample.guarded.processors := by decide
  rintro source hsource place hplace
  simp only [Sample.guardedSources, List.mem_cons, List.not_mem_nil, or_false] at hsource
  rcases hsource with rfl | rfl
  · cases hplace
  · cases hplace
    exact ⟨_, Workspace.scanWith_eq _ Sample.collect_guarded hworkers .inOrder⟩

namespace Sample

/-- Two directories, each with a broken file of the same name. -/
def twins : CommandSetup where
  workspace :=
    { entries :=
        [(["p", "a.js"], .file (.readable brokenFile)),
          (["q", "a.js"], .file (.readable brokenFile))] }

/-- The result of scanning either directory. -/
def twinScan : ScanSummary :=
  .ofFinished 100 none
    [.ofResult "a.js" (brokenFile.indexFile "a.js" (Settings.indexRules {})).result]

theorem scan_twins {root : Location}
    (hbelow : twins.workspace.below root = [(["a.js"], .file (.readable brokenFile))]) :
    twins.workspace.scan root {} twins.processors twins.schedule none = .ok twinScan := by
  have hcollect : twins.workspace.collect root {} = .ok [(["a.js"], .readable brokenFile)] := by
    rw [Workspace.collect_of_below hbelow (by decide +kernel)]
    rfl
  have hworkers : 0 < Settings.workerCount {} twins.processors := by decide
  rw [Workspace.scan, Workspace.scanWith_eq _ hcollect hworkers]
  rfl

theorem below_twins_p :
    twins.workspace.below ["p"] = [(["a.js"], .file (.readable brokenFile))] :=
  List.mergeSort_of_pairwise (by decide +kernel)

theorem below_twins_q :
    twins.workspace.below ["q"] = [(["a.js"], .file (.readable brokenFile))] :=
  List.mergeSort_of_pairwise (by decide +kernel)

end Sample

/-- The lines about the two files are the same, and neither has the path of its file. -/
theorem CommandSetup.run_confuses_twins :
    Sample.twins.run ["p", "q"] = .exits 1 ""
      ("error: a.js: syntax error near line 1\n" ++ "error: a.js: syntax error near line 1\n") := by
  have hread : CommandLine.read ["p", "q"] = .ok { sources := ["p", "q"] } := by rfl
  have hconfig : CommandLine.configIn { sources := ["p", "q"] } Sample.twins.workspace =
      .ok none := by rfl
  have hsources : CommandLine.sourcesIn { sources := ["p", "q"] } Sample.twins.workspace =
      .ok [("p", .directory ["p"]), ("q", .directory ["q"])] := by rfl
  have hsettings : Sample.twins.settings none none = .ok {} := by rfl
  have hall : Gathered.addAll Sample.twins {} {}
      [("p", .directory ["p"]), ("q", .directory ["q"])] = .ok
        ((({} : Gathered).addScan "p" Sample.twinScan).addScan "q" Sample.twinScan) := by
    simp only [Gathered.addAll, Gathered.add, Sample.scan_twins Sample.below_twins_p,
      Sample.scan_twins Sample.below_twins_q]
  rw [run_eq_result hread rfl hconfig hsources hsettings hall]
  decide +kernel

end ScopeIndex
