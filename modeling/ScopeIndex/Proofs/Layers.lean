import Mathlib
import ScopeIndex.Proofs.Members
import ScopeIndex.Settings.Layer

/-!
# What layers of settings give

Layers are laid over one another group by group, so that a choice is made by the first layer that
gives it, whatever else a layer above says of the group.  Where both layers give a choice the upper
value counts as it is: only objects are mixed, and no choice can be an object.

## Main definitions

* `Leaf.Value`, `Leaf.coerce`, `Leaf.default`, `Settings.value` — the choices of settings, by name.
* `Layer.given?` — what a layer says of a choice.
* `Layer.IsMapping`, `Layer.IsSound` — a layer without repeated names, and one without flaws.
* `Layer.Merges` — a layer that gives what the first of some layers gives.
* `Settings.Takes` — settings that make a choice by a value, or by default.

## Main results

* `Layer.get?_over` — what is found in a layer over another.
* `Layer.IsSound.given?_over` — a choice is made by the upper layer, or else by the lower one.
* `Settings.ofLayer_stack_eq_foldr` — for layers without flaws it does not matter from which end
  they are laid.
* `Settings.exists_ofLayer_stack` — **the settings of layers take each choice from the first that
  gives it.**
-/

namespace ScopeIndex

/-! ### Choices by name -/

namespace Leaf

/-- What a choice is made from. -/
abbrev Value : Leaf → Type
  | nodeTypes | extensions | ignoredDirs => List String
  | tolerant | respectIgnore => Bool
  | marker => String
  | workers => Option Int
  | progressEvery => Int

/-- How the value of a choice is read. -/
def coerce : (leaf : Leaf) → Json → Except (List Complaint) leaf.Value
  | nodeTypes => Coerce.toTextSet
  | tolerant => Layer.single Coerce.toBool
  | marker => Layer.single Coerce.toText
  | extensions => Coerce.toTexts .listType
  | ignoredDirs => Coerce.toTextSet
  | respectIgnore => Layer.single Coerce.toBool
  | workers => Layer.single Coerce.toInt?
  | progressEvery => Layer.single (Coerce.toIntFrom 1)

end Leaf

/-- A choice of settings. -/
def Settings.value (s : Settings) : (leaf : Leaf) → leaf.Value
  | .nodeTypes => s.nodeTypes
  | .tolerant => s.tolerant
  | .marker => s.marker
  | .extensions => s.extensions
  | .ignoredDirs => s.ignoredDirs
  | .respectIgnore => s.respectIgnore
  | .workers => s.workers
  | .progressEvery => s.progressEvery

/-- The choice that is made if none is given. -/
def Leaf.default (leaf : Leaf) : leaf.Value := Settings.value {} leaf

/-- Do settings make a choice by a value, or by default? -/
def Settings.Takes (s : Settings) (leaf : Leaf) : Option Json → Prop
  | some v => leaf.coerce v = .ok (s.value leaf)
  | none => s.value leaf = leaf.default

/-- No choice is made from an object. -/
theorem Leaf.coerce_object (leaf : Leaf) (ms : Members Json) (a : leaf.Value) :
    leaf.coerce (.object ms) ≠ .ok a := by
  cases leaf <;> nofun

theorem Coerce.ne_nil_of_toTexts {flaw : Flaw} {v : Json} {cs : List Complaint}
    (h : Coerce.toTexts flaw v = .error cs) : cs ≠ [] := by
  unfold Coerce.toTexts at h
  split at h
  · split at h
    · cases h
    · next hflaws =>
      cases h
      simpa using hflaws
  · cases h
    exact List.cons_ne_nil _ _

theorem Coerce.ne_nil_of_toTextSet {v : Json} {cs : List Complaint}
    (h : Coerce.toTextSet v = .error cs) : cs ≠ [] := by
  rw [Coerce.toTextSet] at h
  cases htexts : Coerce.toTexts .setType v with
  | ok ts =>
    rw [htexts] at h
    cases h
  | error cs' =>
    rw [htexts] at h
    cases h
    exact Coerce.ne_nil_of_toTexts htexts

theorem Layer.ne_nil_of_single {α : Type} {f : Json → Except Flaw α} {v : Json}
    {cs : List Complaint} (h : Layer.single f v = .error cs) : cs ≠ [] := by
  unfold Layer.single at h
  split at h
  · cases h
  · cases h
    exact List.cons_ne_nil _ _

/-- What is wrong with a value is told. -/
theorem Leaf.ne_nil_of_coerce (leaf : Leaf) {v : Json} {cs : List Complaint}
    (h : leaf.coerce v = .error cs) : cs ≠ [] := by
  cases leaf with
  | nodeTypes => exact Coerce.ne_nil_of_toTextSet h
  | ignoredDirs => exact Coerce.ne_nil_of_toTextSet h
  | extensions => exact Coerce.ne_nil_of_toTexts h
  | tolerant => exact Layer.ne_nil_of_single h
  | marker => exact Layer.ne_nil_of_single h
  | respectIgnore => exact Layer.ne_nil_of_single h
  | workers => exact Layer.ne_nil_of_single h
  | progressEvery => exact Layer.ne_nil_of_single h

theorem Json.over_eq_self {v : Json} (h : ∀ ms, v ≠ .object ms) (u : Json) : v.over u = v := by
  cases v with
  | object ms => exact absurd rfl (h ms)
  | _ => simp only [Json.over]

theorem Json.object_over_object (top base : Layer) :
    (Json.object top).over (.object base) = .object (Layer.over top base) := by
  rw [Json.over]

theorem Members.get?_eq_none {α : Type} {ms : Members α} {key : String} (h : key ∉ keys ms) :
    get? ms key = none := by
  rw [get?, Option.map_eq_none_iff, List.find?_eq_none]
  intro m hm hkey
  exact h (List.mem_map.mpr ⟨m, hm, of_decide_eq_true hkey⟩)

namespace Layer

variable {layer top base : Layer} {key : String}

/-- What a layer says of a choice. -/
def given? (layer : Layer) (leaf : Leaf) : Option Json :=
  Members.get? (layer.group leaf.group).value leaf.name

theorem given?_eq (layer : Layer) (leaf : Leaf) :
    layer.given? leaf = Members.get? (layer.group leaf.group).value leaf.name := rfl

/-! ### One layer over another -/

/-- A value over what is found below. -/
def above (v : Json) : Option Json → Json
  | some u => v.over u
  | none => v

theorem nil_over (base : Layer) : Layer.over [] base = base := by
  rw [Layer.over]

theorem over_cons (k : String) (v : Json) (top base : Layer) :
    Layer.over ((k, v) :: top) base =
      Layer.over top (Members.put k (above v (Members.get? base k)) base) := by
  rw [Layer.over]
  rfl

theorem nodup_keys_over (h : (Members.keys base).Nodup) (top : Layer) :
    (Members.keys (Layer.over top base)).Nodup := by
  induction top generalizing base with
  | nil => rwa [nil_over]
  | cons m top ih =>
    rw [over_cons]
    exact ih (Members.nodup_keys_put h)

theorem mem_keys_over (h : key ∈ Members.keys (Layer.over top base)) :
    key ∈ Members.keys top ∨ key ∈ Members.keys base := by
  induction top generalizing base with
  | nil => exact .inr (nil_over base ▸ h)
  | cons m top ih =>
    rw [over_cons] at h
    rcases ih h with htop | hput
    · exact .inl (List.mem_cons_of_mem m.1 htop)
    · rw [Members.keys_put] at hput
      split at hput
      · exact .inr hput
      · rcases List.mem_append.mp hput with hbase | hself
        · exact .inr hbase
        · exact .inl (List.mem_singleton.mp hself ▸ List.mem_cons_self)

/-- Over nothing a layer stays as it is. -/
theorem over_nil (h : (Members.keys top).Nodup) : Layer.over top [] = top := by
  -- what has been put so far is not in the way of what is left
  suffices hacc : ∀ acc : Layer, (Members.keys (acc ++ top)).Nodup →
      Layer.over top acc = acc ++ top from hacc [] h
  clear h
  induction top with
  | nil => exact fun acc _ => by rw [nil_over, List.append_nil]
  | cons m top ih =>
    intro acc hacc
    have hnew : m.1 ∉ Members.keys acc := by
      rw [Members.keys, List.map_append, List.map_cons] at hacc
      exact fun hm => (List.nodup_append.mp hacc).2.2 _ hm _ List.mem_cons_self rfl
    rw [List.append_cons] at hacc ⊢
    rw [over_cons, Members.get?_eq_none hnew, Members.put_of_not_mem hnew]
    exact ih _ hacc

/-- What is found in a layer over another: what is found above, over what is found below. -/
theorem get?_over (h : (Members.keys top).Nodup) (base : Layer) (key : String) :
    Members.get? (Layer.over top base) key =
      match Members.get? top key with
      | some v => some (above v (Members.get? base key))
      | none => Members.get? base key := by
  induction top generalizing base with
  | nil => simp only [nil_over, Members.get?, List.find?_nil, Option.map_none]
  | cons m top ih =>
    obtain ⟨k, v⟩ := m
    rw [Members.keys, List.map_cons, List.nodup_cons] at h
    rw [over_cons, ih h.2, Members.get?_cons]
    by_cases hk : k = key
    · subst hk
      rw [Members.get?_eq_none h.1, if_pos rfl, Members.get?_put_self]
    · rw [if_neg hk, Members.get?_put_of_ne _ (Ne.symm hk)]

/-! ### Layers without flaws -/

/-- A layer in which no name is repeated, nor the name of a choice in a group. -/
structure IsMapping (layer : Layer) : Prop where
  /-- Names differ. -/
  nodup : (Members.keys layer).Nodup
  /-- The names of the choices of a group differ. -/
  nodup_group : ∀ g, (Members.keys (layer.group g).value).Nodup

/-- A layer of groups whose choices can be read. -/
structure IsSound (layer : Layer) : Prop where
  /-- There are only groups. -/
  known : ∀ k ∈ Members.keys layer, k ∈ Group.all.map Group.name
  /-- What is given for a group holds choices. -/
  group : ∀ g, (layer.group g).complaints = []
  /-- What is given for a choice can be read. -/
  leaf : ∀ leaf v, layer.given? leaf = some v → ∃ a, leaf.coerce v = .ok a

theorem group_complaints_iff {g : Group} : (layer.group g).complaints = [] ↔
    ∀ v, Members.get? layer g.name = some v → ∃ choices, v = .object choices := by
  unfold Layer.group
  cases hget : Members.get? layer g.name with
  | none => simp
  | some v => cases v <;> simp

theorem read_complaints_iff {leaf : Leaf} :
    (layer.read leaf leaf.default leaf.coerce).complaints = [] ↔
      ∀ v, layer.given? leaf = some v → ∃ a, leaf.coerce v = .ok a := by
  rw [Layer.read, ← given?_eq]
  cases layer.given? leaf with
  | none => simp
  | some v =>
    cases hcoerce : leaf.coerce v with
    | ok a => simp [hcoerce]
    | error cs => simp [hcoerce, leaf.ne_nil_of_coerce hcoerce]

theorem strangers_eq_nil_iff : layer.strangers = [] ↔
    ∀ k ∈ Members.keys layer, k ∈ Group.all.map Group.name := by
  rw [Layer.strangers, List.map_eq_nil_iff, List.filter_eq_nil_iff]
  simp

end Layer

namespace Settings

variable {layer : Layer}

theorem complaints_check_iff : (check layer).complaints = [] ↔ layer.IsSound := by
  have hall : (check layer).complaints = [] ↔ layer.strangers = [] ∧
      (∀ g, (layer.group g).complaints = []) ∧
      ∀ leaf : Leaf, (layer.read leaf leaf.default leaf.coerce).complaints = [] := by
    simp only [check, List.append_eq_nil_iff]
    constructor
    · rintro ⟨⟨⟨⟨⟨⟨⟨⟨⟨⟨⟨⟨hscopes, hnodeTypes⟩, hparser⟩, htolerant⟩, hpaths⟩, hmarker⟩, hscanner⟩,
        hextensions⟩, hignoredDirs⟩, hrespectIgnore⟩, hworkers⟩, hprogressEvery⟩, hstrangers⟩
      refine ⟨hstrangers, fun g => ?_, fun leaf => ?_⟩
      · cases g <;> assumption
      · cases leaf <;> assumption
    · rintro ⟨hstrangers, hgroup, hleaf⟩
      exact ⟨⟨⟨⟨⟨⟨⟨⟨⟨⟨⟨⟨hgroup .scopes, hleaf .nodeTypes⟩, hgroup .parser⟩, hleaf .tolerant⟩,
        hgroup .paths⟩, hleaf .marker⟩, hgroup .scanner⟩, hleaf .extensions⟩, hleaf .ignoredDirs⟩,
        hleaf .respectIgnore⟩, hleaf .workers⟩, hleaf .progressEvery⟩, hstrangers⟩
  simp only [hall, Layer.strangers_eq_nil_iff, Layer.read_complaints_iff]
  exact ⟨fun h => ⟨h.1, h.2.1, h.2.2⟩, fun h => ⟨h.known, h.group, h.leaf⟩⟩

theorem value_check (layer : Layer) (leaf : Leaf) :
    (check layer).value.value leaf = (layer.read leaf leaf.default leaf.coerce).value := by
  cases leaf <;> rfl

theorem isSound_of_ofLayer {t : Settings} (h : ofLayer layer = .ok t) : layer.IsSound := by
  rw [← complaints_check_iff]
  unfold ofLayer at h
  dsimp only at h
  split at h
  · cases h
  · split at h
    · next hnone => exact List.isEmpty_iff.mp hnone
    · cases h

/-- The settings of a layer without flaws take what it gives. -/
theorem takes_check (h : layer.IsSound) (leaf : Leaf) :
    (check layer).value.Takes leaf (layer.given? leaf) := by
  have hvalue := value_check layer leaf
  rw [Layer.read, ← Layer.given?_eq] at hvalue
  cases hgiven : layer.given? leaf with
  | none =>
    rw [hgiven] at hvalue
    exact hvalue
  | some v =>
    obtain ⟨a, ha⟩ := h.leaf leaf v hgiven
    rw [hgiven] at hvalue
    simp only [ha] at hvalue
    rw [Takes, ha, hvalue]

/-- A layer without flaws gives settings. -/
theorem ofLayer_of_isSound (hnodup : (Members.keys layer).Nodup) (h : layer.IsSound) :
    ofLayer layer = .ok (check layer).value := by
  -- a torn name leaves its mark in place of the value, and here all values are objects
  have htorn : layer.hasTornName = false := by
    rw [Layer.hasTornName, List.any_eq_false]
    rintro ⟨k, v⟩ hm
    obtain ⟨g, -, rfl⟩ := List.mem_map.mp (h.known k (List.mem_map.mpr ⟨_, hm, rfl⟩))
    obtain ⟨choices, rfl⟩ := Layer.group_complaints_iff.mp (h.group g) v
      ((Members.get?_eq_some_iff hnodup).mpr hm)
    simp
  unfold ofLayer
  simp only [htorn, complaints_check_iff.mpr h]
  rfl

end Settings

namespace Layer

variable {top base : Layer}

/-! ### Groups over one another -/

theorem isMapping_nil : IsMapping [] := ⟨List.nodup_nil, fun _ => List.nodup_nil⟩

theorem isSound_nil : IsSound [] := ⟨nofun, fun _ => rfl, nofun⟩

theorem group_of_none {layer : Layer} {g : Group} (h : Members.get? layer g.name = none) :
    layer.group g = ⟨[], []⟩ := by
  rw [Layer.group, h]

theorem group_of_object {layer choices : Layer} {g : Group}
    (h : Members.get? layer g.name = some (.object choices)) : layer.group g = ⟨choices, []⟩ := by
  rw [Layer.group, h]

theorem IsSound.get?_cases {layer : Layer} (h : layer.IsSound) (g : Group) :
    Members.get? layer g.name = none ∨
      ∃ choices, Members.get? layer g.name = some (.object choices) := by
  cases hget : Members.get? layer g.name with
  | none => exact .inl rfl
  | some v =>
    obtain ⟨choices, rfl⟩ := group_complaints_iff.mp (h.group g) v hget
    exact .inr ⟨choices, rfl⟩

/-- The choices of a group in a layer over another. -/
theorem group_over (hmapping : top.IsMapping) (htop : top.IsSound) (hbase : base.IsSound)
    (g : Group) : (Layer.over top base).group g =
      ⟨Layer.over (top.group g).value (base.group g).value, []⟩ := by
  have hfound := get?_over hmapping.nodup base g.name
  rcases htop.get?_cases g with hnone | ⟨choices, hchoices⟩
  · have hgroup : (Layer.over top base).group g = base.group g := by
      rw [hnone] at hfound
      rw [Layer.group, Layer.group, hfound]
    rw [hgroup, group_of_none hnone, nil_over, ← hbase.group g]
  · have hnodup := hmapping.nodup_group g
    rw [hchoices] at hfound
    rw [group_of_object hchoices] at hnodup ⊢
    rcases hbase.get?_cases g with hnone | ⟨below, hbelow⟩
    · rw [hnone] at hfound
      rw [group_of_object hfound, group_of_none hnone, over_nil hnodup]
    · rw [hbelow] at hfound
      rw [group_of_object hbelow]
      exact group_of_object (hfound.trans (congrArg some (Json.object_over_object choices below)))

/-- **A choice is made by the upper layer, or else by the lower one.** -/
theorem IsSound.given?_over (hmapping : top.IsMapping) (htop : top.IsSound) (hbase : base.IsSound)
    (leaf : Leaf) : (Layer.over top base).given? leaf =
      (top.given? leaf).or (base.given? leaf) := by
  have hfound := get?_over (hmapping.nodup_group leaf.group) (base.group leaf.group).value leaf.name
  rw [given?, group_over hmapping htop hbase, hfound, ← given?_eq, ← given?_eq]
  cases hgiven : top.given? leaf with
  | none => rfl
  | some v =>
    -- a value that can be read is no object, so nothing from below is mixed into it
    obtain ⟨a, ha⟩ := htop.leaf leaf v hgiven
    have hplain : ∀ ms, v ≠ .object ms := by
      rintro ms rfl
      exact leaf.coerce_object ms a ha
    cases base.given? leaf with
    | none => rfl
    | some u => exact congrArg some (Json.over_eq_self hplain u)

theorem IsMapping.over (hmapping : top.IsMapping) (hmapping' : base.IsMapping) (htop : top.IsSound)
    (hbase : base.IsSound) : (Layer.over top base).IsMapping := by
  refine ⟨nodup_keys_over hmapping'.nodup top, fun g => ?_⟩
  rw [group_over hmapping htop hbase]
  exact nodup_keys_over (hmapping'.nodup_group g) _

theorem IsSound.over (hmapping : top.IsMapping) (htop : top.IsSound) (hbase : base.IsSound) :
    (Layer.over top base).IsSound := by
  refine ⟨fun k hk => ?_, fun g => ?_, fun leaf v hv => ?_⟩
  · exact (mem_keys_over hk).elim (htop.known k) (hbase.known k)
  · rw [group_over hmapping htop hbase]
  · rw [given?_over hmapping htop hbase, Option.or_eq_some_iff] at hv
    rcases hv with hv | ⟨-, hv⟩
    · exact htop.leaf leaf v hv
    · exact hbase.leaf leaf v hv

/-- A layer without flaws that gives what the first of some layers gives. -/
structure Merges (merged : Layer) (layers : List Layer) : Prop where
  /-- No name is repeated. -/
  mapping : merged.IsMapping
  /-- All choices can be read. -/
  sound : merged.IsSound
  /-- A choice is made by the first layer that makes it. -/
  given : ∀ leaf, merged.given? leaf = layers.findSome? (·.given? leaf)

theorem merges_nil : Merges [] [] := ⟨isMapping_nil, isSound_nil, fun _ => rfl⟩

theorem merges_self {layer : Layer} (hmapping : layer.IsMapping) (hsound : layer.IsSound) :
    Merges layer [layer] :=
  ⟨hmapping, hsound, fun leaf => by cases h : layer.given? leaf <;> simp [h]⟩

/-- Layers laid over one another give what the upper ones give, or else the lower ones. -/
theorem Merges.over {uppers lowers : List Layer} (htop : Merges top uppers)
    (hbase : Merges base lowers) : Merges (Layer.over top base) (uppers ++ lowers) where
  mapping := htop.mapping.over hbase.mapping htop.sound hbase.sound
  sound := htop.sound.over htop.mapping hbase.sound
  given leaf := by
    rw [htop.sound.given?_over htop.mapping hbase.sound, htop.given, hbase.given,
      List.findSome?_append]

/-- Layers without flaws make one without flaws, which gives what the first of them gives. -/
theorem merges_stack {layers : List Layer}
    (h : ∀ layer ∈ layers, layer.IsMapping ∧ layer.IsSound) : Merges (stack layers) layers := by
  -- the layers that have been laid so far come first
  suffices hacc : ∀ acc uppers, Merges acc uppers →
      Merges (layers.foldl Layer.over acc) (uppers ++ layers) from hacc [] [] merges_nil
  induction layers with
  | nil => exact fun acc uppers hacc => by simpa using hacc
  | cons layer layers ih =>
    intro acc uppers hacc
    rw [List.forall_mem_cons] at h
    have hnext := ih h.2 _ _ (hacc.over (merges_self h.1.1 h.1.2))
    rwa [List.append_assoc] at hnext

/-- The same holds of layers that are laid from the lowest upwards. -/
theorem merges_foldr {layers : List Layer}
    (h : ∀ layer ∈ layers, layer.IsMapping ∧ layer.IsSound) :
    Merges (layers.foldr Layer.over []) layers := by
  induction layers with
  | nil => exact merges_nil
  | cons layer layers ih =>
    rw [List.forall_mem_cons] at h
    exact (merges_self h.1.1 h.1.2).over (ih h.2)

end Layer

namespace Settings

theorem eq_of_value_eq {s t : Settings} (h : ∀ leaf, s.value leaf = t.value leaf) : s = t := by
  obtain ⟨⟩ := s
  obtain ⟨⟩ := t
  rw [mk.injEq]
  exact ⟨h .nodeTypes, h .tolerant, h .marker, h .extensions, h .ignoredDirs, h .respectIgnore,
    h .workers, h .progressEvery⟩

/-- Two ways to merge layers give the same settings. -/
theorem ofLayer_eq_of_merges {layers : List Layer} {merged merged' : Layer}
    (h : merged.Merges layers) (h' : merged'.Merges layers) : ofLayer merged = ofLayer merged' := by
  rw [ofLayer_of_isSound h.mapping.nodup h.sound, ofLayer_of_isSound h'.mapping.nodup h'.sound]
  refine congrArg Except.ok (eq_of_value_eq fun leaf => ?_)
  rw [value_check, value_check, Layer.read, Layer.read, ← Layer.given?_eq, ← Layer.given?_eq,
    h.given, h'.given]

/-- **For layers without flaws it does not matter from which end they are laid.**  For others it
does: a value that is no object hides the objects below it from those above it. -/
theorem ofLayer_stack_eq_foldr {layers : List Layer}
    (h : ∀ layer ∈ layers, layer.IsMapping ∧ layer.IsSound) :
    ofLayer (Layer.stack layers) = ofLayer (layers.foldr Layer.over []) :=
  ofLayer_eq_of_merges (Layer.merges_stack h) (Layer.merges_foldr h)

/-- **The settings of layers take each choice from the first layer that gives it.** -/
theorem exists_ofLayer_stack {layers : List Layer}
    (h : ∀ layer ∈ layers, layer.IsMapping ∧ layer.IsSound) :
    ∃ t, ofLayer (Layer.stack layers) = .ok t ∧
      ∀ leaf, t.Takes leaf (layers.findSome? (·.given? leaf)) := by
  have hmerges := Layer.merges_stack h
  refine ⟨_, ofLayer_of_isSound hmerges.mapping.nodup hmerges.sound, fun leaf => ?_⟩
  rw [← hmerges.given]
  exact takes_check hmerges.sound leaf

end Settings
end ScopeIndex
