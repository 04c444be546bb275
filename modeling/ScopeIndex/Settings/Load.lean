import ScopeIndex.Settings.Dotenv
import ScopeIndex.Settings.Environment
import ScopeIndex.Settings.Toml.Document
import ScopeIndex.Text.Encoding
import ScopeIndex.Workspace.Home

/-!
# Loading settings

Settings come from several places.  In descending order of precedence these are the overrides of the
caller, the variables of the process, files of variables, a file with tables, a JSON file, and directories
whose files are variables.  Overrides and files name groups in any case.  Some overrides are no settings
but say how variables are read and where they are.

## Main definitions

* `SettingsSources` — what is given at each place.
* `SettingsError` — why settings cannot be loaded.
* `VariableRules.adjust` — the rules for variables that overrides choose.
* `Settings.load` — the settings of all places.
* `Settings.ofOverrides` — the settings of overrides and of variables that hold whole groups.

## References

The class `IndexSettings` and the function `load_settings` of jsindex.
-/

namespace ScopeIndex

/-- What is given at each place. -/
structure SettingsSources where
  /-- The overrides of the caller. -/
  overrides : Layer := []
  /-- The variables of the process. -/
  env : Members String := []
  /-- The accounts of the machine. -/
  accounts : Accounts := {}
  /-- What the names of variables start with. -/
  stem : String := ""
  /-- Where files are looked for. -/
  workspace : Workspace := {}
  /-- The path of a file of variables. -/
  variableFile : Option String := none
  /-- The path of a file with tables. -/
  tableFile : Option String := none
  /-- The path of a JSON file. -/
  jsonFile : Option String := none

/-- Why settings cannot be loaded. -/
inductive SettingsError where
  /-- An override has the name of a place. -/
  | nameOfPlace
  /-- An override that tells how or where variables are read has a value of the wrong kind. -/
  | wrongOption
  /-- The home directory that the path of a file starts with is not known. -/
  | homeUnknown
  /-- The system does not hand over a file. -/
  | system (fault : SystemFault)
  /-- There is no encoding of a name. -/
  | unknownEncoding
  /-- A file is not in its encoding. -/
  | undecodable
  /-- What should be a directory of variables is a file. -/
  | noDirectory
  /-- The file with tables is malformed. -/
  | malformedToml
  /-- The JSON file is malformed. -/
  | malformedJson
  /-- A file holds an integer with too many digits. -/
  | tooManyDigits
  /-- A file or a variable holds a value with too many levels. -/
  | tooDeep
  /-- The JSON file holds neither an object nor a list of pairs. -/
  | noEntries
  /-- An entry of the list in the JSON file is no pair. -/
  | noPair
  /-- The first half of a pair in the JSON file is no name. -/
  | noName
  /-- A variable should hold JSON and does not. -/
  | unreadable (name : UnreadableVariable)
  /-- Values are wrong. -/
  | invalid (complaints : List Complaint)
  deriving DecidableEq, Repr

/-! ### Rules that overrides choose -/

namespace VariableRules

/-- The overrides that are no settings. -/
def options : List String :=
  ["_case_sensitive", "_nested_model_default_partial_update", "_env_prefix", "_env_prefix_target",
    "_env_file", "_env_file_depth", "_env_file_encoding", "_env_ignore_empty", "_env_nested_delimiter",
    "_env_nested_max_split", "_env_parse_none_str", "_env_parse_enums", "_cli_prog_name",
    "_cli_parse_args", "_cli_settings_source", "_cli_parse_none_str", "_cli_hide_none_type",
    "_cli_avoid_json", "_cli_enforce_required", "_cli_use_class_docs_for_groups", "_cli_exit_on_error",
    "_cli_prefix", "_cli_flag_prefix_char", "_cli_implicit_flags", "_cli_ignore_unknown_args",
    "_cli_kebab_case", "_cli_shortcuts", "_secrets_dir", "_build_sources"]

/-- The words for which the stem counts in the names of settings. -/
def stemTargets : List String := ["variable", "all"]

/-- The rules with what overrides choose. -/
def adjust (rules : VariableRules) (overrides : Layer) : VariableRules :=
  let text? (name : String) : Option String := (Members.get? overrides name).bind Json.text?
  let bool? (name : String) : Option Bool :=
    match Members.get? overrides name with
    | none | some .null => none
    | some v => some v.isTruthy
  let count? : Option Int := (Members.get? overrides "_env_nested_max_split").bind Json.int?
  { stem :=
      if (text? "_env_prefix_target").all stemTargets.contains then
        (text? "_env_prefix").getD rules.stem
      else ""
    delimiter := (text? "_env_nested_delimiter").or rules.delimiter
    caseMatters := (bool? "_case_sensitive").getD rules.caseMatters
    skipsEmpty := (bool? "_env_ignore_empty").getD rules.skipsEmpty
    nullWord := (text? "_env_parse_none_str").or rules.nullWord
    mostNames := (count?.filter (0 < ·)).map Int.toNat }

end VariableRules

/-! ### Layers -/

/-- A layer with its groups under their own names, whatever the case of the names they were given under.
Of two names for one group the first counts. -/
def Layer.named (ms : Layer) : Layer :=
  let known := Group.all.filterMap fun g =>
    (ms.find? fun m => LowerCase.ofText m.1 = g.name).map fun m => (g.name, m.2)
  known ++ ms.filter fun m => !(Group.all.map Group.name).contains (LowerCase.ofText m.1)

namespace Settings

/-- The bytes of a file. -/
def bytesOf (content : Content) : Except SettingsError (List UInt8) := content.bytes.mapError .system

/-- The bytes of the file that a path leads to, if it leads to one. -/
def fileAt (s : SettingsSources) (path : String) : Except SettingsError (Option (List UInt8)) := do
  match ← (s.workspace.contentAt s.accounts s.env path).mapError fun _ => .homeUnknown with
  | none => return none
  | some content => return some (← bytesOf content)

/-- The text of bytes. -/
def textOf (encoding : Encoding) (bytes : List UInt8) : Except SettingsError String :=
  match encoding.decode? bytes with
  | some cs => .ok (String.ofList cs)
  | none => .error .undecodable

/-- The text of the file that a path leads to, if there is a path and a file. -/
def textAt (s : SettingsSources) : Option String → Except SettingsError (Option String)
  | none => .ok none
  | some path => do
      match ← fileAt s path with
      | none => return none
      | some bytes => return some (← textOf .utf8 bytes)

/-! ### Files -/

/-- The layer of a file with tables. -/
def tableLayer (s : SettingsSources) : Except SettingsError Layer := do
  match ← textAt s s.tableFile with
  | none => return []
  | some text =>
      match Toml.read text with
      | .ok ms => return ms
      | .error .malformed => .error .malformedToml
      | .error .tooManyDigits => .error .tooManyDigits
      | .error .tooDeep => .error .tooDeep

/-- What a value holds one by one: items, names or characters. -/
def parts? : Json → Option (List Json)
  | .list vs => some vs
  | .object ms => some (ms.map fun m => .text m.1)
  | .text s => some (s.toList.map fun c => .text (String.ofList [c]))
  | .torn points => some (points.map fun n => Json.ofPoints [n])
  | _ => none

/-- The two halves of a pair. -/
def pairOf (v : Json) : Except SettingsError (Json × Json) :=
  match parts? v with
  | none => .error .noEntries
  | some [.list _, _] => .error .noEntries
  | some [.object _, _] => .error .noEntries
  | some [k, v] => .ok (k, v)
  | some _ => .error .noPair

/-- The names and values of a list of pairs; of two with the same name the later counts. -/
def pairsOf (vs : List Json) : Except SettingsError Layer := do
  let pairs ← vs.mapM pairOf
  let named ← pairs.mapM fun (k, v) =>
    match k with
    | .text name => .ok (name, v)
    | .torn points => .ok (Json.member points v)
    | _ => .error .noName
  return Members.settle named

/-- The names and values that a value holds: an object its members, and a list its pairs. -/
def entriesOf : Json → Except SettingsError Layer
  | .object ms => .ok ms
  | v =>
      match parts? v with
      | some vs => pairsOf vs
      | none => .error .noEntries

/-- The layer of a JSON file; a blank one holds no settings. -/
def jsonLayer (s : SettingsSources) : Except SettingsError Layer := do
  match ← textAt s s.jsonFile with
  | none => return []
  | some text =>
      if text.toList.all Lines.isBlank then return []
      else
        match Json.read settingsLimits text with
        | .ok v => entriesOf v
        | .error .malformed => .error .malformedJson
        | .error .tooManyDigits => .error .tooManyDigits
        | .error .tooDeep => .error .tooDeep

/-! ### Variables -/

/-- Is the stem that overrides choose a text, if they choose one? -/
def hasPlainStem (overrides : Layer) : Bool :=
  match Members.get? overrides "_env_prefix" with
  | none | some .null | some (.text _) => true
  | some _ => false

/-- The layer of variables. -/
def envLayer (rules : VariableRules) (vars : Environment.Variables) : Except SettingsError Layer :=
  match Environment.layer rules (Environment.counted rules vars) with
  | .ok ms => .ok ms
  | .error e => if e.flaw = .tooDeep then .error .tooDeep else .error (.unreadable e)

/-- The layer of a file of variables, with its variables that are no settings. -/
def dotenvLayer (rules : VariableRules) (vars : Environment.Variables) : Except SettingsError Layer := do
  return (← envLayer rules vars) ++ Environment.strangers rules (Environment.counted rules vars)

/-- The variables of the process, each with its value. -/
def processVariables (env : Members String) : Environment.Variables := env.map fun (k, v) => (k, some v)

/-- The paths that an override gives. -/
def pathsOf : Json → Except SettingsError (List String)
  | .null => .ok []
  | .text path => .ok [path]
  | .object ms => .ok (Members.keys ms)
  | .list vs => vs.mapM fun v =>
      match v with
      | .text path => .ok path
      | _ => .error .wrongOption
  | _ => .error .wrongOption

/-- The encoding of files of variables: that of an override, or UTF-8. -/
def variableEncoding (overrides : Layer) : Except SettingsError Encoding :=
  match Members.get? overrides "_env_file_encoding" with
  | none | some .null | some (.text "") => .ok .utf8
  | some (.text name) =>
      match Encoding.ofName? name with
      | some encoding => .ok encoding
      | none => .error .unknownEncoding
  | some _ => .error .wrongOption

/-- The paths of the files of variables.  Overrides may name others, or none. -/
def variableFiles (s : SettingsSources) : Except SettingsError (List String) :=
  match Members.get? s.overrides "_env_file" with
  | some paths => pathsOf paths
  | none => .ok s.variableFile.toList

/-- The variables of files.  Those of later files count; a path that leads to no file is passed over. -/
def dotenvVariables (s : SettingsSources) : Except SettingsError Environment.Variables := do
  (← variableFiles s).foldlM (fun vars path => do
    match ← fileAt s path with
    | none => return vars
    | some bytes =>
        let text ← textOf (← variableEncoding s.overrides) bytes
        return (Dotenv.read s.env text).foldl (fun vars m => Members.put m.1 m.2 vars) vars) []

/-! ### Directories of variables -/

/-- The directories whose files are variables.  A path that leads nowhere is passed over, and none may lead
to a file. -/
def variableDirectories (s : SettingsSources) : Except SettingsError (List Location) := do
  let paths ← pathsOf ((Members.get? s.overrides "_secrets_dir").getD .null)
  let places ← paths.mapM fun path =>
    (s.workspace.placeAt s.accounts s.env path).mapError fun _ => .homeUnknown
  (places.filterMap id).mapM fun place =>
    if s.workspace.isDirectory place then .ok place else .error .noDirectory

/-- The files right below a place whose names are compared like a name, that name itself first. -/
def filesNamed (rules : VariableRules) (w : Workspace) (place : Location) (name : String) :
    List Content :=
  let files := (w.filesBelow place).filterMap fun f =>
    match f.1 with
    | [k] => if Environment.spelled rules k = name then some (k, f.2) else none
    | _ => none
  (files.filter (·.1 = name) ++ files.filter (·.1 ≠ name)).map (·.2)

/-- The value of a variable that a file is. -/
def fileValue (content : Content) : Except SettingsError String := do
  let text ← textOf .utf8 (← bytesOf content)
  return String.ofList (Lines.trim (Lines.unify text.toList))

/-- What the files of directories say of a group; those of later directories count. -/
def secretGroup? (rules : VariableRules) (s : SettingsSources) (places : List Location) (g : Group) :
    Except SettingsError (Option Json) := do
  let name := Environment.spelled rules (rules.stem ++ g.name)
  match places.reverse.findSome? fun place => (filesNamed rules s.workspace place name).head? with
  | none => return none
  | some content =>
      let text ← fileValue content
      if text.isEmpty then return some (.text text)
      else
        match Json.read settingsLimits text with
        | .ok .null => return none
        | .ok v => return some v
        | .error .tooDeep => .error .tooDeep
        | .error flaw => .error (.unreadable ⟨g.name, flaw⟩)

/-- The layer of directories of variables. -/
def secretLayer (rules : VariableRules) (s : SettingsSources) : Except SettingsError Layer := do
  let places ← variableDirectories s
  Group.all.foldlM (fun ms g => do
    match ← secretGroup? rules s places g with
    | some v => return Members.put g.name v ms
    | none => return ms) []

/-! ### All places -/

/-- The settings of layers, uppermost first. -/
def finish (layers : List Layer) : Except SettingsError Settings :=
  match ofLayer (Layer.stack layers) with
  | .ok s => .ok s
  | .error cs => .error (.invalid cs)

/-- The settings among overrides. -/
def chosen (overrides : Layer) : Layer :=
  Layer.named (overrides.filter fun m => !VariableRules.options.contains m.1)

/-- The names of places, which no override may have. -/
def placeNames : List String := ["env_prefix", "env_file", "toml_file", "json_file"]

/-- The layers of all places, uppermost first.  Files are read before variables are looked at. -/
def layers (rules : VariableRules) (s : SettingsSources) : Except SettingsError (List Layer) := do
  let rules := rules.adjust s.overrides
  let found ← dotenvVariables s
  let tables ← tableLayer s
  let json ← jsonLayer s
  if !hasPlainStem s.overrides then throw .wrongOption
  let env ← envLayer rules (processVariables s.env)
  let dotenv ← dotenvLayer rules found
  let secrets ← secretLayer rules s
  return [chosen s.overrides, env, dotenv, Layer.named tables, Layer.named json, secrets]

/-- The settings of all places. -/
def load (s : SettingsSources) : Except SettingsError Settings := do
  if (Members.keys s.overrides).any placeNames.contains then .error .nameOfPlace
  else finish (← layers { stem := s.stem, delimiter := some "__" } s)

/-- The settings of overrides and of variables that hold whole groups under their bare names. -/
def ofOverrides (env : Members String) (overrides : Layer) (workspace : Workspace)
    (accounts : Accounts) : Except SettingsError Settings := do
  finish (← layers {} { env, overrides, workspace, accounts })

end Settings
end ScopeIndex
