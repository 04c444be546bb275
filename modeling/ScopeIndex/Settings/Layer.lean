import ScopeIndex.Json.Value
import ScopeIndex.Settings.Basic
import ScopeIndex.Settings.Coerce

/-!
# Layers of settings

Each place where settings come from gives a layer: groups by name, with the choices of a group by name.
Layers are laid over one another.  Where both have an object under a name the objects are laid over one
another; otherwise the upper value counts.

## Main definitions

* `Layer`, `Layer.over`, `Layer.stack` — layers and how they are laid over one another.
* `Settings.ofLayer` — the settings that a layer gives, or what is wrong with it.

## References

The models `ScopeSettings`, `ParserSettings`, `PathSettings` and `ScannerSettings` of jsindex, and the
order of sources that `load_settings` customises.
-/

namespace ScopeIndex

/-- Values by name. -/
abbrev Layer := Members Json

mutual

/-- One value laid over another. -/
def Json.over : Json → Json → Json
  | .object top, .object base => .object (Layer.over top base)
  | v, _ => v

/-- One layer laid over another.  Names of the lower layer come first. -/
def Layer.over : List (String × Json) → Layer → Layer
  | [], base => base
  | (k, v) :: top, base =>
      Layer.over top
        (Members.put k (match Members.get? base k with | some u => v.over u | none => v) base)

end

/-- Layers laid over one another, uppermost first.  Each is put below those that came before it. -/
def Layer.stack (layers : List Layer) : Layer := layers.foldl Layer.over []

/-- A value that stands although something may be wrong with it. -/
structure Checked (α : Type) where
  /-- The value; a default where the given one is wrong. -/
  value : α
  /-- What is wrong. -/
  complaints : List Complaint := []

namespace Layer

/-- The choices of a group. -/
def group (ms : Layer) (g : Group) : Checked Layer :=
  match Members.get? ms g.name with
  | none => ⟨[], []⟩
  | some (.object choices) => ⟨choices, []⟩
  | some _ => ⟨[], [⟨[g.name], .groupType⟩]⟩

/-- The value of a choice, by a reader, or its default if it is not given. -/
def read {α : Type} (ms : Layer) (leaf : Leaf) (default : α)
    (coerce : Json → Except (List Complaint) α) : Checked α :=
  match Members.get? (ms.group leaf.group).value leaf.name with
  | none => ⟨default, []⟩
  | some v =>
      match coerce v with
      | .ok a => ⟨a, []⟩
      | .error cs => ⟨default, cs.map fun c => ⟨leaf.group.name :: leaf.name :: c.place, c.flaw⟩⟩

/-- A reader whose flaws are all of the value itself. -/
def single {α : Type} (coerce : Json → Except Flaw α) (v : Json) : Except (List Complaint) α :=
  match coerce v with
  | .ok a => .ok a
  | .error flaw => .error (Complaint.here flaw)

/-- The names of a layer that are no groups. -/
def strangers (ms : Layer) : List Complaint :=
  ((Members.keys ms).filter fun k => !(Group.all.map Group.name).contains k).map fun k =>
    ⟨[k], .unknownName⟩

/-- Is a name of a layer torn? -/
def hasTornName (ms : Layer) : Bool :=
  ms.any fun m =>
    match m.2 with
    | .misnamed _ => true
    | _ => false

end Layer

namespace Settings

/-- The settings of a layer, with what is wrong with it: choices in their order, then unknown names. -/
def check (ms : Layer) : Checked Settings :=
  let d : Settings := {}
  let nodeTypes := ms.read .nodeTypes d.nodeTypes Coerce.toTextSet
  let tolerant := ms.read .tolerant d.tolerant (Layer.single Coerce.toBool)
  let marker := ms.read .marker d.marker (Layer.single Coerce.toText)
  let extensions := ms.read .extensions d.extensions (Coerce.toTexts .listType)
  let ignoredDirs := ms.read .ignoredDirs d.ignoredDirs Coerce.toTextSet
  let respectIgnore := ms.read .respectIgnore d.respectIgnore (Layer.single Coerce.toBool)
  let workers := ms.read .workers d.workers (Layer.single Coerce.toInt?)
  let progressEvery :=
    ms.read .progressEvery d.progressEvery (Layer.single (Coerce.toIntFrom 1))
  { value :=
      { nodeTypes := nodeTypes.value
        tolerant := tolerant.value
        marker := marker.value
        extensions := extensions.value
        ignoredDirs := ignoredDirs.value
        respectIgnore := respectIgnore.value
        workers := workers.value
        progressEvery := progressEvery.value }
    complaints :=
      (ms.group .scopes).complaints ++ nodeTypes.complaints
        ++ (ms.group .parser).complaints ++ tolerant.complaints
        ++ (ms.group .paths).complaints ++ marker.complaints
        ++ (ms.group .scanner).complaints ++ extensions.complaints ++ ignoredDirs.complaints
        ++ respectIgnore.complaints ++ workers.complaints ++ progressEvery.complaints
        ++ ms.strangers }

/-- The settings of a layer, unless something is wrong with it.  A torn name spoils the whole layer. -/
def ofLayer (ms : Layer) : Except (List Complaint) Settings :=
  let c := check ms
  if ms.hasTornName then .error (Complaint.here .tornText)
  else if c.complaints.isEmpty then .ok c.value
  else .error c.complaints

end Settings
end ScopeIndex
