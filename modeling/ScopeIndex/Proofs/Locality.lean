import Mathlib
import ScopeIndex.Proofs.Precedence
import ScopeIndex.Proofs.Wildcards

/-!
# The reach of an ignore file

What changes outside a directory when an ignore file in it is added or taken away.  Nothing does, as
long as the names on the way to the directory stand for themselves in a pattern, and the file can be
read.  All entries but the file stay where they are in the order of places, so the rules of the
other ignore files stay in their order, and the rules of the file are silent about what is outside.

A directory whose name looks like a pattern is different: its ignore file decides about files in
every directory whose name matches.

## Main definitions

* `Workspace.without` — take away what stands at a place.
* `IgnoreFile.Confined` — the contents of an ignore file that do not reach out of its directory.
* `Workspace.Reaches` — an ignore file takes away a file outside its directory.

## Main results

* `Workspace.exists_below_put` — a new entry leaves the order of the others as it is.
* `IgnoreFile.verdict?_outside_of_read` — an ignore file is silent about what is outside.
* `Workspace.collect_put` — **an ignore file is local to its directory.**
* `Workspace.reaches_of_wild`, `Workspace.reaches_of_slashes` — the ways out of a directory.
-/

namespace ScopeIndex

/-- A new item is put between those that are there, if no two of these are equal in the order. -/
theorem exists_mergeSort_concat {α : Type} {le : α → α → Bool} {xs : List α}
    (htrans : ∀ a b c, le a b = true → le b c = true → le a c = true)
    (htotal : ∀ a b, (le a b || le b a) = true)
    (hantisymm : ∀ a ∈ xs, ∀ b ∈ xs, le a b = true → le b a = true → a = b) (x : α) :
    ∃ before after, (xs ++ [x]).mergeSort le = before ++ x :: after ∧
      xs.mergeSort le = before ++ after := by
  -- without the item the list is still in order, and the items are in one order only
  have hmem : x ∈ (xs ++ [x]).mergeSort le := by simp
  obtain ⟨before, after, hsort⟩ := List.append_of_mem hmem
  refine ⟨before, after, hsort, ?_⟩
  have hperm : (before ++ after).Perm xs := by
    have hall := (List.perm_middle.symm.trans (.of_eq hsort.symm)).trans
      ((List.mergeSort_perm (xs ++ [x]) le).trans (List.perm_append_singleton x xs))
    exact hall.cons_inv
  have hsorted : (before ++ after).Pairwise fun a b => le a b = true := by
    have hall := List.pairwise_mergeSort htrans htotal (xs ++ [x])
    rw [hsort] at hall
    exact hall.sublist ((List.sublist_cons_self x after).append_left before)
  refine List.Perm.eq_of_pairwise (fun a b ha hb hab hba => ?_)
    (List.pairwise_mergeSort htrans htotal xs) hsorted
    ((List.mergeSort_perm xs le).trans hperm.symm)
  exact hantisymm a (List.mem_mergeSort.mp ha) b (hperm.mem_iff.mp hb) hab hba

theorem Utf8.encode_injective : Function.Injective encode := by
  intro text text' h
  have hdecode := (decode?_eq_some_iff.mpr rfl).symm.trans (decode?_eq_some_iff.mpr h)
  exact String.toList_inj.mp (Option.some.inj hdecode)

namespace IgnoreFile

open SlashPath (IsPlace ofSteps)
open IgnoreSpec

variable {root directory place : List String} {bytes : List UInt8} {spec : IgnoreSpec}

/-- The contents of an ignore file that do not reach out of its directory: it can be read, and right
below the root none of its lines consists of slashes. -/
structure Confined (root directory : List String) (bytes : List UInt8) : Prop where
  isSound : IsSound bytes (base root (root ++ directory))
  not_slashesOnly : directory.length = 1 → ∀ text : String, bytes = Utf8.encode text →
    ∀ line ∈ lines text.toList, ¬ SlashesOnly line

theorem confined_of_rule {text : String} {line : List Char} {r : IgnoreRule}
    (hlines : lines text.toList = [line])
    (hrule : Pattern.rule (rebaseLine (base root (root ++ directory)) line) = .ok r)
    (hslashes : ¬ SlashesOnly line) : Confined root directory (Utf8.encode text) := by
  refine ⟨⟨text, rfl, ?_⟩, fun _ text' htext => ?_⟩
  · rw [hlines, List.forall_mem_singleton]
    intro flaw hflaw
    rw [Pattern.rule_eq_error_iff.mpr hflaw] at hrule
    cases hrule
  · rw [← Utf8.encode_injective htext, hlines, List.forall_mem_singleton]
    exact hslashes

/-- A slash alone becomes the name of the directory, which is looked for at every depth. -/
theorem rule_slash {name : String} (root : List String) (h : Literal [name])
    (hcomment : (ofSteps [name]).toList.head? ≠ some '#') (hline : IsLine ['/']) :
    Pattern.rule (rebaseLine (base root (root ++ [name])) ['/']) =
      .ok (.active false (.pieces (.above :: (name.toList ++ ['/']).map .char))) := by
  have hname := h.isPlace.isName name List.mem_cons_self
  have hrebased := @rule_rebased root [name] ['/'] false h hline (by decide)
  have hpattern : rebase (base root (root ++ [name])) ['/'] = name.toList ++ ['/'] := by
    rw [base_append root (List.cons_ne_nil _ _), SlashPath.toList_ofSteps (List.cons_ne_nil _ _)]
    exact List.append_nil _
  have hending : Pattern.ending (Separated.split '/' (name.toList ++ ['/'])) = [] := by
    rw [Pattern.ending, Separated.split_append, List.getLast?_append]
    rfl
  rw [if_neg fun hnot => hcomment hnot.2, hpattern,
    Pattern.ruleOf_floating false (h.isOrdinary name List.mem_cons_self) hname.toList_ne_nil
      hname.slash (.inr rfl), hending, List.append_nil] at hrebased
  exact hrebased

/-- **An ignore file is silent about what is outside its directory.** -/
theorem verdict?_outside_of_read (h : Literal directory) (hconfined : Confined root directory bytes)
    (hread : read bytes (some (base root (root ++ directory))) = .ok spec) (hplace : IsPlace place)
    (houtside : ¬ directory <+: place) : verdict? spec (ofSteps place).toList = none := by
  obtain ⟨text, rfl, -⟩ := hconfined.isSound
  rw [read_encode, Option.elim_some] at hread
  have hrules : rules ((lines text.toList).map (rebaseLine (base root (root ++ directory)))) =
      .ok spec := by
    cases hrules : rules ((lines text.toList).map (rebaseLine (base root (root ++ directory))))
    all_goals
      rw [hrules] at hread
      cases hread
    rfl
  rw [verdict?, hplace.normalPath, List.getLast?_eq_none_iff, List.filterMap_eq_nil_iff]
  intro r hr
  obtain ⟨rebased, hrebased, hrule⟩ := exists_of_mem_mapM hrules r hr
  obtain ⟨line, hline, rfl⟩ := List.mem_map.mp (List.mem_of_mem_filter hrebased)
  by_contra hverdict
  obtain ⟨rest, hpath⟩ := reaches_below h (isLine_of_mem_lines hline)
    (fun hone => hconfined.not_slashesOnly hone text rfl line hline) hrule hverdict
  exact houtside (strictPrefix_of_path h hplace hpath).1

end IgnoreFile

namespace Workspace

open SlashPath (IsPlace ofSteps)
open IgnoreFile (Literal Wild Confined)
open IgnoreSpec

variable {w : Workspace} {root directory place : Location} {entry : Entry} {s : Settings}

/-- Take away what stands at a place. -/
def without (w : Workspace) (place : Location) : Workspace :=
  { w with entries := w.entries.filter (·.1 ≠ place) }

theorem IsTree.without (h : w.IsTree) (place : Location) : (w.without place).IsTree := by
  refine ⟨h.distinct.sublist ?_, fun e he => h.named e (List.mem_of_mem_filter he)⟩
  exact (List.filter_sublist).map _

/-- A new entry leaves the order of the others as it is. -/
theorem exists_below_put (h : w.IsTree) (root : Location) {steps : Location} (hne : steps ≠ [])
    (entry : Entry) : ∃ before after,
      (w.put (root ++ steps) entry).below root = before ++ (steps, entry) :: after ∧
      (w.without (root ++ steps)).below root = before ++ after := by
  have hdistinct := (h.without (root ++ steps)).nodup_below root
  have hseen : root <+: root ++ steps ∧ root ≠ root ++ steps := by simpa using hne
  simp only [below, put, without, List.filterMap_append, List.filterMap_cons, List.filterMap_nil,
    if_pos hseen, List.drop_left]
  refine exists_mergeSort_concat (fun a b c => locationLe_trans a.1 b.1 c.1)
    (fun a b => locationLe_total a.1 b.1) (fun a ha b hb hab hba => ?_) _
  exact List.inj_on_of_nodup_map hdistinct (List.mem_mergeSort.mpr ha) (List.mem_mergeSort.mpr hb)
    (locationLe_antisymm hab hba)

/-- So does a new file. -/
theorem exists_filesBelow_put (h : w.IsTree) (root : Location) {steps : Location}
    (hne : steps ≠ []) (content : Content) : ∃ before after,
      (w.put (root ++ steps) (.file content)).filesBelow root =
        before ++ (steps, content) :: after ∧
      (w.without (root ++ steps)).filesBelow root = before ++ after := by
  obtain ⟨before, after, hput, hwithout⟩ := exists_below_put h root hne (.file content)
  refine ⟨before.filterMap fun e => e.2.content?.map fun c => (e.1, c),
    after.filterMap fun e => e.2.content?.map fun c => (e.1, c), ?_, ?_⟩
  · rw [filesBelow, hput, List.filterMap_append, List.filterMap_cons]
    rfl
  · rw [filesBelow, hwithout, List.filterMap_append]

theorem isPlace_of_mem_filesBelow (hnames : ∀ e ∈ w.entries, ∀ name ∈ e.1, SlashPath.IsName name)
    {f : Location × Content} (hf : f ∈ w.filesBelow root) : IsPlace f.1 := by
  obtain ⟨hne, hmem⟩ := mem_filesBelow.mp hf
  exact ⟨hne, fun name hname => hnames _ hmem name (List.mem_append_right root hname)⟩

theorem mem_filesBelow_put (htree : w.IsTree) (content : Content) {f : Location × Content}
    (hout : ¬ directory <+: f.1) :
    f ∈ (w.put (root ++ (directory ++ [ignoreFileName])) (.file content)).filesBelow root ↔
      f ∈ (w.without (root ++ (directory ++ [ignoreFileName]))).filesBelow root := by
  have hne : directory ++ [ignoreFileName] ≠ [] := by simp
  obtain ⟨before, after, hput, hwithout⟩ := exists_filesBelow_put htree root hne content
  have hother : f ≠ (directory ++ [ignoreFileName], content) := by
    rintro rfl
    exact hout (List.prefix_append ..)
  rw [hput, hwithout]
  simp [hother]

/-- An ignore file that is added changes no verdict outside its directory. -/
theorem ignoreSpec_put (htree : w.IsTree) (h : Literal directory) (content : Content)
    (hconfined : ∀ d, content = .readable d →
      Confined root directory d.source.bytes.data.toList) :
    Alike (fun spec spec' => ∀ place, IsPlace place → ¬ directory <+: place →
        verdict? spec (ofSteps place).toList = verdict? spec' (ofSteps place).toList)
      ((w.put (root ++ (directory ++ [ignoreFileName])) (.file content)).ignoreSpec root)
      ((w.without (root ++ (directory ++ [ignoreFileName]))).ignoreSpec root) := by
  have hne : directory ++ [ignoreFileName] ≠ [] := by simp
  obtain ⟨before, after, hput, hwithout⟩ := exists_filesBelow_put htree root hne content
  rw [ignoreSpec, ignoreSpec, ignoreFiles, ignoreFiles, hput, hwithout, List.filterMap_append,
    List.filterMap_append, List.filterMap_cons, ignoreFile?, List.getLast?_concat, if_pos rfl]
  cases content with
  | faulty fault => exact .refl (fun spec place hplace houtside => rfl) _
  | readable d =>
    have hconfined := hconfined d rfl
    obtain ⟨rules, hread⟩ := IgnoreFile.exists_read_iff.mpr hconfined.isSound
    refine (alike_mapM_insert (y := rules) ?_ _ _).map fun specs specs' hspecs => ?_
    · rwa [List.dropLast_concat]
    intro place hplace hout
    obtain ⟨befores, afters, rfl, rfl⟩ := hspecs
    have hsilent := IgnoreFile.verdict?_outside_of_read h hconfined hread hplace hout
    rw [List.flatten_append, List.flatten_append, List.flatten_cons, verdict?_append,
      verdict?_append, verdict?_append, hsilent, Option.or_none]

/-- **An ignore file is local to its directory**: to add it or to take it away changes nothing
outside. -/
theorem collect_put (htree : w.IsTree)
    (hnames : ∀ e ∈ w.entries, ∀ name ∈ e.1, SlashPath.IsName name) (h : Literal directory)
    (s : Settings) (content : Content)
    (hconfined : s.respectIgnore = true → ∀ d, content = .readable d →
      Confined root directory d.source.bytes.data.toList) :
    Alike (fun files files' => ∀ f, ¬ directory <+: f.1 → (f ∈ files ↔ f ∈ files'))
      ((w.put (root ++ (directory ++ [ignoreFileName])) (.file content)).collect root s)
      ((w.without (root ++ (directory ++ [ignoreFileName]))).collect root s) := by
  have hspecs : Alike (fun spec spec' => ∀ place, IsPlace place → ¬ directory <+: place →
        verdict? spec (ofSteps place).toList = verdict? spec' (ofSteps place).toList)
      (if s.respectIgnore then
        (w.put (root ++ (directory ++ [ignoreFileName])) (.file content)).ignoreSpec root
      else .ok [])
      (if s.respectIgnore then
        (w.without (root ++ (directory ++ [ignoreFileName]))).ignoreSpec root
      else .ok []) := by
    cases hrespect : s.respectIgnore with
    | false => exact .ok fun place hplace hout => rfl
    | true => exact ignoreSpec_put htree h content (hconfined hrespect)
  refine hspecs.map fun spec spec' hverdicts f hout => ?_
  rw [List.mem_filter, List.mem_filter, mem_filesBelow_put htree content hout]
  refine and_congr_right fun hf => ?_
  have hplace := isPlace_of_mem_filesBelow (fun e he => hnames e (List.mem_of_mem_filter he)) hf
  rw [isCollected, isCollected, ignores, ignores, hverdicts f.1 hplace hout]

/-! ### Ignore files that reach out -/

/-- There is a tree in which an ignore file in a directory takes away a file that is not below the
directory. -/
def Reaches (directory : Location) (d : Document) : Prop :=
  ∃ (w : Workspace) (s : Settings) (f : Location × Content)
    (files files' : List (Location × Content)),
    w.IsTree ∧ (∀ e ∈ w.entries, ∀ name ∈ e.1, SlashPath.IsName name) ∧ ¬ directory <+: f.1 ∧
    (w.put (directory ++ [ignoreFileName]) (.file (.readable d))).collect [] s = .ok files ∧
    f ∉ files ∧
    (w.without (directory ++ [ignoreFileName])).collect [] s = .ok files' ∧ f ∈ files'

/-- Settings without ignored directories. -/
def everywhere : Settings := { ignoredDirs := [] }

/-- A tree with one file, which is empty. -/
def lone (place : Location) : Workspace :=
  { entries := [(place, .file (.readable Sample.emptyFile))] }

theorem isCollected_everywhere (spec : IgnoreSpec) (way : Location) :
    isCollected everywhere spec (way ++ ["a.js"]) = !spec.ignores (ofSteps (way ++ ["a.js"])) := by
  have hsource : everywhere.isSource (way ++ ["a.js"]) = true := by
    rw [Settings.isSource, List.getLast?_concat]
    decide +kernel
  have hshuns : everywhere.shuns (way ++ ["a.js"]) = false := by
    simp [Settings.shuns, everywhere]
  rw [isCollected, hsource, hshuns]
  rfl

theorem isTree_lone (hplace : IsPlace place) : (lone place).IsTree := by
  refine ⟨List.nodup_singleton place, fun e he name hname => ?_⟩
  obtain rfl := List.mem_singleton.mp he
  exact (hplace.isName name hname).slash

/-- What is below the top when a file is there, and no ignore file. -/
theorem filesBelow_lone_without (way directory : Location) :
    ((lone (way ++ ["a.js"])).without (directory ++ [ignoreFileName])).filesBelow [] =
      [(way ++ ["a.js"], .readable Sample.emptyFile)] := by
  have hother : way ++ ["a.js"] ≠ directory ++ [ignoreFileName] := by
    intro heq
    exact absurd (List.append_inj_right' heq rfl) (by decide)
  have hentries : ((lone (way ++ ["a.js"])).without (directory ++ [ignoreFileName])).entries =
      [(way ++ ["a.js"], .file (.readable Sample.emptyFile))] := by
    simp [without, lone, hother]
  rw [filesBelow, below, hentries]
  simp [Entry.content?]

/-- The rule of the only ignore file of a tree with another file. -/
theorem ignoreSpec_lone {text : String} {line : List Char} {r : IgnoreRule} {way : Location}
    (hplace : IsPlace (way ++ ["a.js"])) (hlines : IgnoreFile.lines text.toList = [line])
    (hrule : Pattern.rule (IgnoreFile.rebaseLine (IgnoreFile.base [] directory) line) = .ok r)
    (hactive : r ≠ .void) :
    ((lone (way ++ ["a.js"])).put (directory ++ [ignoreFileName])
      (.file (.readable ⟨.ofText text, none⟩))).ignoreSpec [] = .ok [r] := by
  have hne : directory ++ [ignoreFileName] ≠ [] := by simp
  obtain ⟨before, after, hput, hwithout⟩ :=
    exists_filesBelow_put (isTree_lone hplace) [] hne (.readable ⟨.ofText text, none⟩)
  rw [List.nil_append, filesBelow_lone_without] at hwithout
  -- the other file is a source, so there are no further rules
  have hnone : ∀ f ∈ before ++ after, ¬ f.1.getLast? = some ignoreFileName := by
    rw [← hwithout]
    simp [ignoreFileName]
  rw [List.forall_mem_append] at hnone
  have hfiles : ((lone (way ++ ["a.js"])).put (directory ++ [ignoreFileName])
      (.file (.readable ⟨.ofText text, none⟩))).ignoreFiles [] =
        [(directory ++ [ignoreFileName], Utf8.encode text)] := by
    rw [List.nil_append] at hput
    rw [ignoreFiles, hput, List.filterMap_append, List.filterMap_cons, ignoreFile?,
      List.getLast?_concat, if_pos rfl,
      List.filterMap_eq_nil_iff.mpr fun f hf => ignoreFile?_of_ne (hnone.1 f hf),
      List.filterMap_eq_nil_iff.mpr fun f hf => ignoreFile?_of_ne (hnone.2 f hf)]
    rfl
  have hrebased : IgnoreFile.rebaseLine (IgnoreFile.base [] directory) line ≠ [] := by
    intro hnil
    rw [hnil] at hrule
    exact hactive (Except.ok.inj hrule).symm
  rw [ignoreSpec, hfiles, List.mapM_cons, List.dropLast_concat, IgnoreFile.read_encode,
    Option.elim_some, hlines, List.map_singleton, IgnoreFile.rules,
    List.filter_cons_of_pos (by simpa using hrebased), List.mapM_cons, List.nil_append, hrule]
  rfl

/-- A line whose rule ignores a source outside the directory reaches out. -/
theorem reaches_of_rule {text : String} {line : List Char} {r : IgnoreRule} {way : Location}
    (hlines : IgnoreFile.lines text.toList = [line])
    (hrule : Pattern.rule (IgnoreFile.rebaseLine (IgnoreFile.base [] directory) line) = .ok r)
    (hplace : IsPlace (way ++ ["a.js"])) (hout : ¬ directory <+: way ++ ["a.js"])
    (hverdict : r.verdict? (ofSteps (way ++ ["a.js"])).toList = some true) :
    Reaches directory ⟨.ofText text, none⟩ := by
  have hactive : r ≠ .void := by
    rintro rfl
    cases hverdict
  have hcollect : ((lone (way ++ ["a.js"])).put (directory ++ [ignoreFileName])
      (.file (.readable ⟨.ofText text, none⟩))).collect [] everywhere =
        .ok ((((lone (way ++ ["a.js"])).put (directory ++ [ignoreFileName])
          (.file (.readable ⟨.ofText text, none⟩))).filesBelow []).filter fun f =>
            isCollected everywhere [r] f.1) := by
    have hrespect : everywhere.respectIgnore = true := rfl
    rw [collect, if_pos hrespect, ignoreSpec_lone hplace hlines hrule hactive]
    rfl
  refine ⟨lone (way ++ ["a.js"]), everywhere, (way ++ ["a.js"], .readable Sample.emptyFile), _, _,
    isTree_lone hplace, List.forall_mem_singleton.mpr hplace.isName, hout, hcollect, ?_,
    collect_of_filesBelow (filesBelow_lone_without way directory) ?_, ?_⟩
  · have hignores : IgnoreSpec.ignores [r] (ofSteps (way ++ ["a.js"])) = true := by
      rw [ignores, verdict?_singleton, hplace.normalPath, hverdict]
      rfl
    rw [List.mem_filter, isCollected_everywhere, hignores]
    simp
  · simp [ignoreFileName]
  · rw [List.mem_filter, isCollected_everywhere]
    exact ⟨List.mem_singleton.mpr rfl, rfl⟩

theorem isPlace_source : IsPlace ["a.js"] :=
  ⟨by decide, List.forall_mem_singleton.mpr ⟨by decide, by decide, by decide⟩⟩

/-- A star or a question mark in the name of the directory is enough. -/
theorem reaches_of_wild (h : Wild directory) : Confined [] directory (Utf8.encode "/a.js\n") ∧
    Reaches directory ⟨.ofText "/a.js\n", none⟩ := by
  have hlines : IgnoreFile.lines "/a.js\n".toList = ["/a.js".toList] := by decide
  obtain ⟨r, hrule, hverdict⟩ := h.exists_rule []
  have hplace : IsPlace (directory.map SlashPath.filled ++ ["a.js"]) :=
    isPlace_source.append h.isPlace_filled.isName
  refine ⟨IgnoreFile.confined_of_rule hlines hrule ?_,
    reaches_of_rule hlines hrule hplace ?_ hverdict⟩
  · exact fun hslashes => absurd (hslashes.2 'a' (by decide)) (by decide)
  · intro hbelow
    have hlength : directory.length = (directory.map SlashPath.filled).length := by simp
    have hinside := List.prefix_of_prefix_length_le hbelow (List.prefix_append ..) hlength.le
    exact h.filled_ne (hinside.eq_of_length hlength).symm

/-- A line of slashes in a directory right below the root is enough. -/
theorem reaches_of_slashes (h : Literal directory) (hone : directory.length = 1)
    (hcomment : (ofSteps directory).toList.head? ≠ some '#') :
    Reaches directory ⟨.ofText "/\n", none⟩ := by
  obtain ⟨name, rfl⟩ := List.length_eq_one_iff.mp hone
  have hlines : IgnoreFile.lines "/\n".toList = [['/']] := by decide
  have hname := h.isPlace.isName name List.mem_cons_self
  have hline := IgnoreFile.isLine_of_mem_lines (hlines ▸ List.mem_singleton_self ['/'])
  have hrule := IgnoreFile.rule_slash [] h hcomment hline
  -- a directory of the same name in a directory of another name
  obtain ⟨top, htop, hother⟩ : ∃ top, (top = "x" ∨ top = "y") ∧ top ≠ name := by
    by_cases hx : name = "x"
    · exact ⟨"y", .inr rfl, by rw [hx]; decide⟩
    · exact ⟨"x", .inl rfl, Ne.symm hx⟩
  have hnames : SlashPath.IsName top ∧ '\n' ∉ top.toList := by
    rcases htop with rfl | rfl
    · exact ⟨⟨by decide, by decide, by decide⟩, by decide⟩
    · exact ⟨⟨by decide, by decide, by decide⟩, by decide⟩
  have hplace : IsPlace ([top, name] ++ ["a.js"]) :=
    isPlace_source.append (List.forall_mem_cons.mpr ⟨hnames.1, List.forall_mem_singleton.mpr hname⟩)
  refine reaches_of_rule hlines hrule hplace ?_ (if_pos ?_)
  · rintro ⟨rest, hrest⟩
    exact hother (List.cons.inj hrest).1.symm
  · have hpath : (ofSteps ([top, name] ++ ["a.js"])).toList =
        top.toList ++ '/' :: (name.toList ++ ['/'] ++ "a.js".toList) := by
      rw [SlashPath.toList_ofSteps (by simp)]
      simp
    rw [hpath, PathTest.passes, Piece.matchesStart_cons, List.any_eq_true]
    refine ⟨_, Piece.mem_rests_above_append hnames.1.toList_ne_nil hnames.2 _, ?_⟩
    rw [← List.append_nil (List.map _ _), Piece.matchesStart_map_char]
    rfl

/-- **Where an ignore file is local to its directory.**  If the names on the way to the directory
stand for themselves, to add an ignore file there or to take it away changes nothing outside, as
long as the file can be read and, right below the root, no line consists of slashes.  A star or a
question mark in a name, a line of slashes, and a file that cannot be read are felt outside. -/
theorem collect_local (directory : Location) :
    (Literal directory → ∀ (w : Workspace) (root : Location) (s : Settings) (content : Content),
      w.IsTree → (∀ e ∈ w.entries, ∀ name ∈ e.1, SlashPath.IsName name) →
      (s.respectIgnore = true → ∀ d, content = .readable d →
        Confined root directory d.source.bytes.data.toList) →
      Alike (fun files files' => ∀ f, ¬ directory <+: f.1 → (f ∈ files ↔ f ∈ files'))
        ((w.put (root ++ (directory ++ [ignoreFileName])) (.file content)).collect root s)
        ((w.without (root ++ (directory ++ [ignoreFileName]))).collect root s)) ∧
    (Wild directory → Confined [] directory (Utf8.encode "/a.js\n") ∧
      Reaches directory ⟨.ofText "/a.js\n", none⟩) ∧
    (Literal directory → directory.length = 1 →
      (ofSteps directory).toList.head? ≠ some '#' → Reaches directory ⟨.ofText "/\n", none⟩) ∧
    ∀ (w : Workspace) (root : Location) (s : Settings) (d : Document), s.respectIgnore = true →
      ¬ IgnoreFile.IsSound d.source.bytes.data.toList (IgnoreFile.base root (root ++ directory)) →
      ∀ files, (w.put (root ++ (directory ++ [ignoreFileName]))
        (.file (.readable d))).collect root s ≠ .ok files := by
  refine ⟨fun h w root s content htree hnames => collect_put htree hnames h s content,
    reaches_of_wild, reaches_of_slashes, fun w root s d hrespect hsound files hfiles => ?_⟩
  refine hsound (exists_collect_iff.mp ⟨files, hfiles⟩ hrespect directory d ?_)
  rw [List.append_assoc]
  exact List.mem_append_right _ (List.mem_singleton.mpr rfl)

theorem collect_local_samples :
    Literal ["lib]"] ∧ (lone ["0", "a.js"]).IsTree ∧
    (∀ e ∈ (lone ["0", "a.js"]).entries, ∀ name ∈ e.1, SlashPath.IsName name) ∧
    Confined [] ["lib]"] (Utf8.encode "a.js\n") ∧
    Alike (fun files files' => ∀ f, ¬ ["lib]"] <+: f.1 → (f ∈ files ↔ f ∈ files'))
      (((lone ["0", "a.js"]).put ([] ++ (["lib]"] ++ [ignoreFileName]))
        (.file (.readable ⟨.ofText "a.js\n", none⟩))).collect [] {})
      (((lone ["0", "a.js"]).without ([] ++ (["lib]"] ++ [ignoreFileName]))).collect [] {}) ∧
    Wild ["a*"] ∧ Reaches ["a*"] ⟨.ofText "/a.js\n", none⟩ := by
  have hliteral : Literal ["lib]"] := by
    refine ⟨⟨by decide, ?_⟩, ?_, by decide⟩ <;> rw [List.forall_mem_singleton]
    · exact ⟨by decide, by decide, by decide⟩
    · exact List.all_eq_true.mp (by decide)
  have hplace : IsPlace ["0", "a.js"] :=
    isPlace_source.append (List.forall_mem_singleton.mpr ⟨by decide, by decide, by decide⟩)
  have hlines : IgnoreFile.lines "a.js\n".toList = ["a.js".toList] := by decide
  have hconfined : Confined [] ["lib]"] (Utf8.encode "a.js\n") :=
    IgnoreFile.confined_of_rule hlines rfl
      fun hslashes => absurd (hslashes.2 'a' (by decide)) (by decide)
  have hnames : ∀ e ∈ (lone ["0", "a.js"]).entries, ∀ name ∈ e.1, SlashPath.IsName name :=
    List.forall_mem_singleton.mpr hplace.isName
  have hwild : Wild ["a*"] := by
    refine ⟨⟨by decide, ?_⟩, ?_, by decide, by decide, ⟨"a*", by decide, '*', by decide, rfl⟩⟩ <;>
      rw [List.forall_mem_singleton]
    · exact ⟨by decide, by decide, by decide⟩
    · exact List.all_eq_true.mp (by decide)
  exact ⟨hliteral, isTree_lone hplace, hnames, hconfined,
    (collect_local ["lib]"]).1 hliteral _ [] {} _ (isTree_lone hplace) hnames
      fun _ d hd => by cases hd; exact hconfined,
    hwild, ((collect_local ["a*"]).2.1 hwild).2⟩

/-- In a directory whose name stands for a digit, an ignore file takes away a source in a directory
that is called by one. -/
theorem collect_not_local :
    ((lone ["0", "a.js"]).put ["[0-9]", ignoreFileName]
      (.file (.readable ⟨.ofText "a.js\n", none⟩))).collect [] {} = .ok [] ∧
    ((lone ["0", "a.js"]).without ["[0-9]", ignoreFileName]).collect [] {} =
      .ok [(["0", "a.js"], .readable Sample.emptyFile)] := by
  constructor
  · have hplace : IsPlace ["0", "a.js"] :=
      isPlace_source.append (List.forall_mem_singleton.mpr ⟨by decide, by decide, by decide⟩)
    have hbelow : ((lone ["0", "a.js"]).put ["[0-9]", ignoreFileName]
        (.file (.readable ⟨.ofText "a.js\n", none⟩))).below [] =
          [(["0", "a.js"], .file (.readable Sample.emptyFile)),
            (["[0-9]", ignoreFileName], .file (.readable ⟨.ofText "a.js\n", none⟩))] :=
      List.mergeSort_of_pairwise (by decide +kernel)
    have hrule : Pattern.rule (IgnoreFile.rebaseLine (IgnoreFile.base [] ["[0-9]"])
        "a.js".toList) = .ok (.active false (.pieces [.bracket ⟨false, [⟨'0', '9'⟩]⟩, .between,
          .char '/', .char 'a', .char '.', .char 'j', .char 's', .close])) := rfl
    have hspec := @ignoreSpec_lone ["[0-9]"] "a.js\n" _ _ ["0"] hplace (by decide) hrule (by simp)
    rw [List.singleton_append, List.singleton_append] at hspec
    rw [collect, hspec, filesBelow, hbelow]
    rfl
  · exact collect_of_filesBelow (filesBelow_lone_without ["0"] ["[0-9]"]) (by simp [ignoreFileName])

end Workspace
end ScopeIndex
