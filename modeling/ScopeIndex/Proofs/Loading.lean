import Mathlib
import ScopeIndex.Proofs.Failing
import ScopeIndex.Proofs.Layers
import ScopeIndex.Proofs.Settled
import ScopeIndex.Proofs.Utf8
import ScopeIndex.Settings.Load

/-!
# Which place a setting comes from

Settings come from overrides, the variables of the process, a file of variables, a file with tables
and a JSON file.  Whatever each of them gives, as long as it could be settings on its own, the
settings of all of them take each choice from the first place that makes it.  A place that makes
one choice of a group leaves the other choices of the group to the places behind it.

## Main definitions

* `Settings.Decoded` — the layers that the places give.

## Main results

* `Layer.isMapping_named`, `Settings.isMapping_of_envLayer` — no layer repeats a name.
* `Settings.layers_of_decoded` — the layers that are laid over one another.
* `Settings.load_of_decoded` — **each choice is made by the first place that makes it.**
-/

namespace ScopeIndex

open Json (Settled)

/-! ### Underscores in lower case -/

namespace LowerCase

theorem charsBetween_underscore (before behind : List Char) :
    charsBetween before '_' behind = ['_'] := by
  have hsigma : '_'.toNat ≠ 0x3A3 := by decide
  have hplain : chars '_' = ['_'] := by decide +kernel
  rw [charsBetween, if_neg fun h => hsigma h.1, hplain]

theorem underscore_mem_ofChars {before cs : List Char} (h : '_' ∈ cs) :
    '_' ∈ ofChars before cs := by
  induction cs generalizing before with
  | nil => cases h
  | cons c cs ih =>
    rw [ofChars, List.mem_append]
    rcases List.mem_cons.mp h with rfl | h
    · rw [charsBetween_underscore]
      exact .inl List.mem_cons_self
    · exact .inr (ih h)

theorem underscore_mem_ofText {s : String} (h : '_' ∈ s.toList) : '_' ∈ (ofText s).toList := by
  rw [ofText, String.toList_ofList]
  exact underscore_mem_ofChars h

end LowerCase

/-! ### Groups under their own names -/

namespace Layer

variable {ms : Layer}

theorem nodup_group (h : ∀ m ∈ ms, ∀ choices, m.2 = .object choices → (Members.keys choices).Nodup)
    (g : Group) : (Members.keys (ms.group g).value).Nodup := by
  rw [Layer.group]
  split
  · exact List.nodup_nil
  · next choices hget => exact h _ (Members.mem_of_get? hget) choices rfl
  · exact List.nodup_nil

theorem exists_of_mem_named {m : String × Json} (h : m ∈ named ms) : ∃ m' ∈ ms, m.2 = m'.2 := by
  rw [named, List.mem_append, List.mem_filterMap] at h
  rcases h with ⟨g, -, hg⟩ | h
  · obtain ⟨m', hm', rfl⟩ := Option.map_eq_some_iff.mp hg
    exact ⟨m', List.mem_of_find?_eq_some hm', rfl⟩
  · exact ⟨m, List.mem_of_mem_filter h, rfl⟩

theorem lowerCase_name {k : String} (h : k ∈ Group.all.map Group.name) :
    LowerCase.ofText k = k := by
  have hall : ∀ k ∈ Group.all.map Group.name, LowerCase.ofText k = k := by decide +kernel
  exact hall k h

/-- Where there are only groups, each member is called by a group, in some case. -/
theorem lowerCase_mem_names (h : ∀ k ∈ Members.keys (named ms), k ∈ Group.all.map Group.name)
    {m : String × Json} (hm : m ∈ ms) : LowerCase.ofText m.1 ∈ Group.all.map Group.name := by
  by_contra hother
  -- the member keeps its name, which is that of a group and in lower case already
  have hkept : m ∈ named ms := by
    refine List.mem_append_right _ (List.mem_filter.mpr ⟨hm, ?_⟩)
    rwa [Bool.not_eq_true', ← Bool.not_eq_true, List.contains_iff_mem]
  have hname := h m.1 (List.mem_map_of_mem hkept)
  rw [lowerCase_name hname] at hother
  exact hother hname

/-- Where there are only groups, none is named twice. -/
theorem nodup_keys_named (h : ∀ k ∈ Members.keys (named ms), k ∈ Group.all.map Group.name) :
    (Members.keys (named ms)).Nodup := by
  have hothers : (ms.filter fun m =>
      !(Group.all.map Group.name).contains (LowerCase.ofText m.1)) = [] := by
    rw [List.filter_eq_nil_iff]
    intro m hm
    rw [List.contains_iff_mem.mpr (lowerCase_mem_names h hm)]
    exact Bool.false_ne_true
  have hdistinct : Group.all.Pairwise fun g g' => g.name ≠ g'.name := by decide +kernel
  rw [named, hothers, List.append_nil, Members.keys]
  refine List.pairwise_map.mpr (hdistinct.filterMap _ fun g g' hne m hm m' hm' => ?_)
  obtain ⟨-, -, rfl⟩ := Option.map_eq_some_iff.mp hm
  obtain ⟨-, -, rfl⟩ := Option.map_eq_some_iff.mp hm'
  exact hne

theorem isMapping_named (hms : ∀ m ∈ ms, Settled m.2) (h : (named ms).IsSound) :
    (named ms).IsMapping := by
  refine ⟨nodup_keys_named h.known, nodup_group fun m hm choices hchoices => ?_⟩
  obtain ⟨m', hm', heq⟩ := exists_of_mem_named hm
  have hsettled := hms m' hm'
  rw [← heq, hchoices] at hsettled
  exact hsettled.nodup

end Layer

/-! ### Variables -/

namespace Environment

variable {rules : VariableRules} {vars : Variables} {g : Group}

theorem nodup_keys_canonical (hcase : rules.caseMatters = false) (g : Group) (ms : Layer) :
    (Members.keys (canonical rules g ms)).Nodup := by
  rw [canonical, hcase, if_neg Bool.false_ne_true, Members.settle]
  exact Members.nodup_keys_foldl_put List.nodup_nil

/-- What variables say of a group repeats no name. -/
theorem nodup_of_group? (hcase : rules.caseMatters = false) {choices : Layer}
    (h : group? rules vars g = .ok (some (.object choices))) : (Members.keys choices).Nodup := by
  unfold group? at h
  dsimp only at h
  -- variables of single choices are gathered under one name each, with a whole group or without
  split at h
  · obtain ⟨ms, -, h⟩ := exists_of_bind_eq_ok h
    split at h
    · cases h
    · cases h
      exact nodup_keys_canonical hcase g ms
  · split at h
    · cases h
    · split at h
      · cases h
      · cases h
      · obtain ⟨ms, -, h⟩ := exists_of_bind_eq_ok h
        cases h
        exact nodup_keys_canonical hcase g _
      · next hobject _ =>
        cases h
        exact absurd rfl (hobject choices)

/-- The layer of variables repeats no name. -/
theorem isMapping_of_layer (hcase : rules.caseMatters = false) {ms : Layer}
    (h : layer rules vars = .ok ms) : ms.IsMapping := by
  have hkept : (Members.keys ms).Nodup ∧
      ∀ m ∈ ms, ∀ choices, m.2 = .object choices → (Members.keys choices).Nodup := by
    refine foldlM_induction (motive := fun ms : Layer => (Members.keys ms).Nodup ∧
      ∀ m ∈ ms, ∀ choices, m.2 = .object choices → (Members.keys choices).Nodup) h
      ⟨List.nodup_nil, nofun⟩ fun ms g ms' hms hstep => ?_
    obtain ⟨found, hfound, hstep⟩ := exists_of_bind_eq_ok hstep
    cases found with
    | none =>
      cases hstep
      exact hms
    | some v =>
      cases hstep
      refine ⟨Members.nodup_keys_put hms.1, fun m hm choices hchoices => ?_⟩
      rcases Members.mem_put hm with hm | rfl
      · exact hms.2 m hm choices hchoices
      · subst hchoices
        exact nodup_of_group? hcase hfound
  exact ⟨hkept.1, Layer.nodup_group hkept.2⟩

/-- No variable that is no setting has the name of a group. -/
theorem not_mem_keys_strangers (hcase : rules.caseMatters = false) {k : String}
    (h : k ∈ Group.all.map Group.name) : k ∉ Members.keys (strangers rules vars) := by
  intro hk
  obtain ⟨m, hm, rfl⟩ := List.mem_map.mp hk
  obtain ⟨⟨k, v⟩, hvar, rfl⟩ := List.mem_map.mp hm
  obtain ⟨g, hg, hname⟩ := List.mem_map.mp h
  rw [List.mem_filter, Bool.and_eq_true, Bool.and_eq_true, List.contains_iff_mem.mpr h] at hvar
  obtain ⟨-, ⟨-, hstem⟩, hbelongs⟩ := hvar
  have hempty : rules.stem = "" := by simpa using hstem
  have hbelongs' : belongs rules k g = true := by
    rw [belongs, hempty, String.empty_append, spelled, hcase, if_neg Bool.false_ne_true,
      Layer.lowerCase_name (List.mem_map_of_mem hg), hname, decide_eq_true rfl, Bool.true_or]
  rw [List.any_eq_true.mpr ⟨g, hg, hbelongs'⟩] at hbelongs
  cases hbelongs

end Environment

namespace Settings

open Environment (Variables)

variable {rules : VariableRules} {vars : Variables} {s : SettingsSources} {layer : Layer}

theorem isMapping_of_envLayer (hcase : rules.caseMatters = false)
    (h : envLayer rules vars = .ok layer) : layer.IsMapping := by
  unfold envLayer at h
  split at h
  · next hlayer =>
    cases h
    exact Environment.isMapping_of_layer hcase hlayer
  · split at h
    · cases h
    · cases h

/-- A file of variables without others repeats no name. -/
theorem isMapping_of_dotenvLayer (hcase : rules.caseMatters = false)
    (h : dotenvLayer rules vars = .ok layer) (hsound : layer.IsSound) : layer.IsMapping := by
  obtain ⟨ms, hms, h⟩ := exists_of_bind_eq_ok h
  cases h
  -- other variables have no names of groups, so a layer with only groups holds none of them
  have hnone : Environment.strangers rules (Environment.counted rules vars) = [] := by
    rw [List.eq_nil_iff_forall_not_mem]
    intro m hm
    have hkey : m.1 ∈ Members.keys (Environment.strangers rules (Environment.counted rules vars)) :=
      List.mem_map_of_mem hm
    refine Environment.not_mem_keys_strangers hcase (hsound.known m.1 ?_) hkey
    exact List.mem_map_of_mem (List.mem_append_right ms hm)
  rw [hnone, List.append_nil]
  exact isMapping_of_envLayer hcase hms

/-! ### Files -/

theorem textAt_of_fileAt {path text : String}
    (h : fileAt s path = .ok (some (Utf8.encode text))) :
    textAt s (some path) = .ok (some text) := by
  have htext : textOf .utf8 (Utf8.encode text) = .ok text := by
    rw [textOf, Encoding.decode?, Utf8.decode?_eq_some_iff.mpr rfl]
    exact congrArg Except.ok String.ofList_toList
  simp only [textAt, h, htext, bind, Except.bind]
  rfl

theorem tableLayer_of_read {text : String} (htext : textAt s s.tableFile = .ok (some text))
    (hread : Toml.read text = .ok layer) : tableLayer s = .ok layer := by
  simp only [tableLayer, htext, hread, bind, Except.bind]
  rfl

theorem settled_of_tableLayer (h : tableLayer s = .ok layer) : ∀ m ∈ layer, Settled m.2 := by
  obtain ⟨text, -, h⟩ := exists_of_bind_eq_ok h
  cases text with
  | none =>
    cases h
    exact nofun
  | some text =>
    dsimp only at h
    split at h
    · next hread =>
      cases h
      exact (Toml.settled_of_read hread).members
    · cases h
    · cases h
    · cases h

theorem settled_of_parts? {v : Json} {vs : List Json} (hv : Settled v) (h : parts? v = some vs) :
    ∀ u ∈ vs, Settled u := by
  unfold parts? at h
  split at h
  · cases h
    exact hv.items
  · cases h
    exact List.forall_mem_map.mpr fun m _ => .plain rfl
  · cases h
    exact List.forall_mem_map.mpr fun c _ => .plain rfl
  · cases h
    exact List.forall_mem_map.mpr fun n _ => Json.settled_ofPoints [n]
  · cases h

theorem settled_of_pairOf {v key u : Json} (hv : Settled v) (h : pairOf v = .ok (key, u)) :
    Settled u := by
  unfold pairOf at h
  split at h
  · cases h
  · cases h
  · cases h
  · next hparts =>
    cases h
    exact settled_of_parts? hv hparts _ (by simp)
  · cases h

theorem settled_of_pairsOf {vs : List Json} (hvs : ∀ v ∈ vs, Settled v)
    (h : pairsOf vs = .ok layer) : ∀ m ∈ layer, Settled m.2 := by
  obtain ⟨pairs, hpairs, h⟩ := exists_of_bind_eq_ok h
  obtain ⟨named, hnamed, h⟩ := exists_of_bind_eq_ok h
  cases h
  refine (Json.settled_settle fun m hm => ?_).members
  -- back from a member to the pair, and from the pair to the item that it was made of
  obtain ⟨⟨key, u⟩, hpair, hm⟩ := exists_of_mem_mapM hnamed m hm
  obtain ⟨v, hv, hpair⟩ := exists_of_mem_mapM hpairs _ hpair
  have hu := settled_of_pairOf (hvs v hv) hpair
  dsimp only at hm
  split at hm
  · cases hm
    exact hu
  · cases hm
    exact Json.settled_member hu _
  · cases hm

theorem settled_of_entriesOf {v : Json} (hv : Settled v) (h : entriesOf v = .ok layer) :
    ∀ m ∈ layer, Settled m.2 := by
  unfold entriesOf at h
  split at h
  · cases h
    exact hv.members
  · split at h
    · next hparts => exact settled_of_pairsOf (settled_of_parts? hv hparts) h
    · cases h

theorem settled_of_jsonLayer (h : jsonLayer s = .ok layer) : ∀ m ∈ layer, Settled m.2 := by
  obtain ⟨text, -, h⟩ := exists_of_bind_eq_ok h
  cases text with
  | none =>
    cases h
    exact nofun
  | some text =>
    dsimp only at h
    split at h
    · cases h
      exact nofun
    · split at h
      · next hread => exact settled_of_entriesOf (Json.settled_of_read hread) h
      · cases h
      · cases h
      · cases h

/-! ### All places -/

/-- The rules for the variables of settings. -/
def rulesFor (s : SettingsSources) : VariableRules := { stem := s.stem, delimiter := some "__" }

/-- The layers that overrides, variables, a file of variables, a file with tables and a JSON file
give. -/
inductive Decoded (s : SettingsSources) : List Layer → Prop where
  | intro {vars : Variables} {env dotenv tables json : Layer}
      (hsettled : Settled (.object s.overrides))
      (henv : envLayer (rulesFor s) (processVariables s.env) = .ok env)
      (hvars : dotenvVariables s = .ok vars)
      (hdotenv : dotenvLayer (rulesFor s) vars = .ok dotenv)
      (htables : tableLayer s = .ok tables)
      (hjson : jsonLayer s = .ok json) :
      Decoded s [Layer.named s.overrides, env, dotenv, Layer.named tables, Layer.named json]

/-- The layers of all places repeat no name. -/
theorem isMapping_of_decoded {ls : List Layer} (h : Decoded s ls)
    (hsound : ∀ layer ∈ ls, layer.IsSound) : ∀ layer ∈ ls, layer.IsMapping := by
  obtain ⟨hsettled, henv, -, hdotenv, htables, hjson⟩ := h
  simp only [List.forall_mem_cons] at hsound ⊢
  obtain ⟨hoverrides', henv', hdotenv', htables', hjson', -⟩ := hsound
  exact ⟨Layer.isMapping_named hsettled.members hoverrides', isMapping_of_envLayer rfl henv,
    isMapping_of_dotenvLayer rfl hdotenv hdotenv',
    Layer.isMapping_named (settled_of_tableLayer htables) htables',
    Layer.isMapping_named (settled_of_jsonLayer hjson) hjson', nofun⟩

/-- Overrides that are all settings leave the rules for variables as they are. -/
theorem adjust_of_options {overrides : Layer}
    (h : ∀ name ∈ VariableRules.options, Members.get? overrides name = none) :
    (rulesFor s).adjust overrides = rulesFor s := by
  unfold VariableRules.adjust
  simp only [h "_env_prefix_target" (by decide), h "_env_prefix" (by decide),
    h "_env_nested_delimiter" (by decide), h "_case_sensitive" (by decide),
    h "_env_ignore_empty" (by decide), h "_env_parse_none_str" (by decide),
    h "_env_nested_max_split" (by decide)]
  rfl

/-- Without an override that names directories there are no variables in files. -/
theorem secretLayer_of_options (h : Members.get? s.overrides "_secrets_dir" = none)
    (rules : VariableRules) : secretLayer rules s = .ok [] := by
  rw [secretLayer, variableDirectories, h]
  rfl

/-- Overrides that are settings name neither places nor options. -/
theorem not_mem_of_isSound (h : (Layer.named s.overrides).IsSound) {name : String}
    (hname : name ∈ Members.keys s.overrides) :
    name ∉ placeNames ∧ name ∉ VariableRules.options := by
  obtain ⟨m, hm, rfl⟩ := List.mem_map.mp hname
  have hgroup := Layer.lowerCase_mem_names h.known hm
  -- these names have underscores, and those of the groups have none
  have hgroups : ∀ name ∈ Group.all.map Group.name, '_' ∉ name.toList := by decide +kernel
  have hplaces : ∀ name ∈ placeNames, '_' ∈ name.toList := by decide +kernel
  have hoptions : ∀ name ∈ VariableRules.options, '_' ∈ name.toList := by decide +kernel
  have hplain : '_' ∉ m.1.toList := fun hmem =>
    hgroups _ hgroup (LowerCase.underscore_mem_ofText hmem)
  exact ⟨fun hplace => hplain (hplaces _ hplace), fun hoption => hplain (hoptions _ hoption)⟩

/-- Below the layers of all places there is only an empty one. -/
theorem layers_of_decoded {ls : List Layer} (h : Decoded s ls)
    (hsound : (Layer.named s.overrides).IsSound) : layers (rulesFor s) s = .ok (ls ++ [[]]) := by
  obtain ⟨-, henv, hvars, hdotenv, htables, hjson⟩ := h
  have hoptions : ∀ name ∈ VariableRules.options, Members.get? s.overrides name = none :=
    fun name hname => Members.get?_eq_none fun hkey => (not_mem_of_isSound hsound hkey).2 hname
  have hchosen : chosen s.overrides = Layer.named s.overrides := by
    rw [chosen, List.filter_eq_self.mpr]
    intro m hm
    have hname := (not_mem_of_isSound hsound (List.mem_map_of_mem hm)).2
    rw [← List.contains_iff_mem, Bool.not_eq_true] at hname
    rw [hname]
    rfl
  have hstem : hasPlainStem s.overrides = true := by
    rw [hasPlainStem, hoptions "_env_prefix" (by decide)]
  have hsecrets := secretLayer_of_options (hoptions "_secrets_dir" (by decide)) (rulesFor s)
  simp only [layers, adjust_of_options hoptions, hvars, htables, hjson, hstem, henv, hdotenv,
    hsecrets, hchosen, bind, Except.bind]
  rfl

theorem load_of_isSound (h : (Layer.named s.overrides).IsSound) :
    load s = (layers (rulesFor s) s).bind finish := by
  rw [load, if_neg]
  · rfl
  · rw [List.any_eq_true]
    rintro ⟨name, hname, hplace⟩
    exact (not_mem_of_isSound h hname).1 (List.contains_iff_mem.mp hplace)

theorem Decoded.mem {ls : List Layer} (h : Decoded s ls) : Layer.named s.overrides ∈ ls := by
  obtain ⟨-⟩ := h
  exact List.mem_cons_self

/-- **Each choice is made by the first place that makes it**, or by default if none does, as long as
what every place gives could be settings. -/
theorem load_of_decoded {ls : List Layer} (h : Decoded s ls)
    (hvalid : ∀ layer ∈ ls, ∃ t, ofLayer layer = .ok t) :
    ∃ t, load s = .ok t ∧ ∀ leaf, t.Takes leaf (ls.findSome? (·.given? leaf)) := by
  have hsound : ∀ layer ∈ ls, layer.IsSound := by
    intro layer hlayer
    obtain ⟨t, ht⟩ := hvalid layer hlayer
    exact isSound_of_ofLayer ht
  have hmapping := isMapping_of_decoded h hsound
  have hall : ∀ layer ∈ ls ++ [[]], layer.IsMapping ∧ layer.IsSound := by
    refine List.forall_mem_append.mpr ⟨fun layer hlayer => ?_, List.forall_mem_singleton.mpr ?_⟩
    · exact ⟨hmapping layer hlayer, hsound layer hlayer⟩
    · exact ⟨Layer.isMapping_nil, Layer.isSound_nil⟩
  obtain ⟨t, ht, htakes⟩ := exists_ofLayer_stack hall
  refine ⟨t, ?_, fun leaf => ?_⟩
  · have hoverrides := hsound _ h.mem
    rw [load_of_isSound hoverrides, layers_of_decoded h hoverrides]
    change finish (ls ++ [[]]) = .ok t
    rw [finish, ht]
  · have hgiven := htakes leaf
    rw [List.findSome?_append] at hgiven
    have hnone : ([[]] : List Layer).findSome? (·.given? leaf) = none := rfl
    rwa [hnone, Option.or_none] at hgiven

end Settings

/-! ### Overrides and a file with tables -/

namespace Sample

/-- A file with two choices of a group. -/
def tablesText : String := "[scanner]\nnum_workers = 3\nprogress_every = 9\n"

/-- An override of one of them. -/
def overriding : SettingsSources where
  overrides := [("Scanner", .object [("num_workers", .int 2)])]
  workspace :=
    { entries := [(["settings.toml"], .file (.readable ⟨.ofText tablesText, none⟩))] }
  tableFile := some "settings.toml"

/-- The layers of all places. -/
def overridingLayers : List Layer :=
  [[("scanner", .object [("num_workers", .int 2)])], [], [],
    [("scanner", .object [("num_workers", .int 3), ("progress_every", .int 9)])], []]

theorem tableLayer_overriding : Settings.tableLayer overriding =
    .ok [("scanner", .object [("num_workers", .int 3), ("progress_every", .int 9)])] := by
  have hfile : Settings.fileAt overriding "settings.toml" =
      .ok (some (Utf8.encode tablesText)) := by rfl
  have hread : Toml.read tablesText =
      .ok [("scanner", .object [("num_workers", .int 3), ("progress_every", .int 9)])] := by cbv
  exact Settings.tableLayer_of_read (Settings.textAt_of_fileAt hfile) hread

theorem named_scanner {name : String} (h : LowerCase.ofText name = "scanner") (v : Json) :
    Layer.named [(name, v)] = [("scanner", v)] := by
  simp [Layer.named, Group.all, Group.name, h]

theorem decoded_overriding : Settings.Decoded overriding overridingLayers := by
  have hoverrides := named_scanner (by decide +kernel : LowerCase.ofText "Scanner" = "scanner")
    (.object [("num_workers", .int 2)])
  have htables := named_scanner (by decide +kernel : LowerCase.ofText "scanner" = "scanner")
    (.object [("num_workers", .int 3), ("progress_every", .int 9)])
  rw [overridingLayers, ← hoverrides, ← htables]
  refine @Settings.Decoded.intro overriding [] _ _ _ _ ?_ rfl rfl rfl tableLayer_overriding rfl
  have hgroup : Settled (.object [("num_workers", .int 2)]) :=
    .object (List.nodup_singleton _) (List.forall_mem_singleton.mpr (.plain rfl))
  exact .object (List.nodup_singleton _) (List.forall_mem_singleton.mpr hgroup)

end Sample

theorem Settings.load_of_decoded_overriding :
    Decoded Sample.overriding Sample.overridingLayers ∧
    (∀ layer ∈ Sample.overridingLayers, ∃ t, ofLayer layer = .ok t) ∧
    ∃ t, load Sample.overriding = .ok t ∧ t.workers = some 2 ∧ t.progressEvery = 9 ∧
      t.tolerant = false := by
  have hvalid : ∀ layer ∈ Sample.overridingLayers, ∃ t, ofLayer layer = .ok t := by
    simp only [Sample.overridingLayers, List.forall_mem_cons]
    exact ⟨⟨_, rfl⟩, ⟨_, rfl⟩, ⟨_, rfl⟩, ⟨_, rfl⟩, ⟨_, rfl⟩, nofun⟩
  obtain ⟨t, ht, htakes⟩ := load_of_decoded Sample.decoded_overriding hvalid
  refine ⟨Sample.decoded_overriding, hvalid, t, ht, ?_, ?_, ?_⟩
  · exact (Except.ok.inj (htakes .workers)).symm
  · exact (Except.ok.inj (htakes .progressEvery)).symm
  · exact htakes .tolerant

end ScopeIndex
