import ScopeIndex.Json.Reader
import ScopeIndex.Settings.Layer
import ScopeIndex.Text.LowerCase

/-!
# Settings from variables

Variables of the process, or of a file of variables, give settings by their names, as a rule in any case.
With a stem `s`, the variable `s` followed by the name of a group holds a whole group as JSON.  A name that
goes on with two bars and the name of a choice holds that choice alone, and wins over the whole group.

## Main definitions

* `VariableRules` — how variables are read.
* `Environment.layer` — the layer that variables give.
* `Environment.strangers` — the variables of a file that are no settings.

## References

The argument `env_settings` of `settings_customise_sources` in jsindex: the variables that `BaseSettings` of
`pydantic_settings` reads, with the delimiter that `load_settings` sets.
-/

namespace ScopeIndex

/-- How variables are read. -/
structure VariableRules where
  /-- What the names of settings start with. -/
  stem : String := ""
  /-- What stands between the names of a group and a choice; if unset, only whole groups count. -/
  delimiter : Option String := none
  /-- Are names told apart by their case? -/
  caseMatters : Bool := false
  /-- Are empty variables passed over? -/
  skipsEmpty : Bool := false
  /-- The text that stands for nothing. -/
  nullWord : Option String := none
  /-- The most names that a chain is taken apart into, if that is limited. -/
  mostNames : Option Nat := none
  deriving DecidableEq, Repr

/-- A variable that should hold JSON and does not. -/
structure UnreadableVariable where
  /-- The name of the setting. -/
  name : String
  /-- What is wrong with its text. -/
  flaw : ReadFlaw
  deriving DecidableEq, Repr

/-- The limits of the runtime for JSON texts of settings.  The calls from the start of the command to the
reader are taken to be 25, and a level takes one more. -/
def settingsLimits : ReadLimits := .ofRuntime 25

namespace Environment

/-- Variables by name, with their values if they have one. -/
abbrev Variables := Members (Option String)

/-- A name as variables are compared by. -/
def spelled (rules : VariableRules) (name : String) : String :=
  if rules.caseMatters then name else LowerCase.ofText name

/-- The variables that count, by their names as they are compared; of two with the same name the later
counts. -/
def counted (rules : VariableRules) (vars : Variables) : Variables :=
  Members.settle ((vars.filter fun m => !(rules.skipsEmpty && m.2 = some "")).map fun (k, v) =>
    (spelled rules k, v))

/-! ### Chains of names -/

/-- A text up to the first place where a delimiter stands, and what follows the delimiter. -/
def cut? (delimiter : List Char) : List Char → Option (List Char × List Char)
  | [] => if delimiter.isEmpty then some ([], []) else none
  | c :: cs =>
      if delimiter.isPrefixOf (c :: cs) then some ([], (c :: cs).drop delimiter.length)
      else (cut? delimiter cs).map fun (a, b) => (c :: a, b)

/-- The pieces of a text between delimiters, at most `count` of them. -/
def pieces (delimiter : List Char) : Nat → List Char → List (List Char)
  | 0, cs => [cs]
  | 1, cs => [cs]
  | count + 2, cs =>
      match cut? delimiter cs with
      | some (piece, rest) => piece :: pieces delimiter (count + 1) rest
      | none => [cs]

/-- The names below a group that a variable spells out, if it belongs to the group. -/
def namesBelow? (rules : VariableRules) (delimiter groupName name : String) : Option (List String) :=
  let lead := (groupName ++ delimiter).toList
  if lead.isPrefixOf name.toList then
    let chain := name.toList.drop lead.length
    some ((pieces delimiter.toList (rules.mostNames.getD (chain.length + 1)) chain).map String.ofList)
  else none

/-- Does a value stand for nothing by the word for it? -/
def isNullWord (rules : VariableRules) (value : Option String) : Bool :=
  value.isSome && value = rules.nullWord

/-- Set the value at the end of a chain of names.  A name on the way that already has a value without
names below it stands in the way, and nothing changes.  A `weak` value does not replace another, unless
that is an empty table. -/
def setBelow (weak : Bool) (value : Json) : List String → Layer → Layer
  | [], ms => ms
  | [k], ms =>
      match weak, Members.get? ms k with
      | true, some (.object []) => Members.put k value ms
      | true, some _ => ms
      | _, _ => Members.put k value ms
  | k :: ks, ms =>
      match Members.get? ms k with
      | none => Members.put k (.object (setBelow weak value ks [])) ms
      | some (.object sub) => Members.put k (.object (setBelow weak value ks sub)) ms
      | some _ => ms

/-- The choice of a group that a name stands for, with or without the stem. -/
def leaf? (rules : VariableRules) (g : Group) (name : String) : Option Leaf :=
  Leaf.all.find? fun l =>
    l.group = g && [l.name, rules.stem ++ l.name].any fun n => spelled rules n = name

/-- The value of a variable for a chain of names below a group: collections are JSON, unless nothing is
given. -/
def valueBelow (rules : VariableRules) (g : Group) (names : List String) (value : Option String) :
    Except UnreadableVariable Json :=
  let isCollection := match names with
    | [k] => ((leaf? rules g k).map Leaf.isCollection).getD false
    | _ => false
  match value with
  | none => .ok .null
  | some text =>
      if isCollection && !text.isEmpty then
        match Json.read settingsLimits text with
        | .ok v => .ok v
        | .error flaw => .error ⟨names.getLastD "", flaw⟩
      else if isNullWord rules value then .ok .null
      else .ok (.text text)

/-- The choices of a group that are given one by one. -/
def choices (rules : VariableRules) (delimiter groupName : String) (g : Group) (vars : Variables) :
    Except UnreadableVariable Layer :=
  vars.foldlM (fun ms (k, value) =>
    match namesBelow? rules delimiter groupName k with
    | none => .ok ms
    | some names => do
        let v ← valueBelow rules g names value
        return setBelow (isNullWord rules value) v names ms) []

/-! ### Groups -/

/-- The choices of a group under the names that they have in any case; of two with the same name the
later counts. -/
def canonical (rules : VariableRules) (g : Group) (ms : Layer) : Layer :=
  if rules.caseMatters then ms
  else
    Members.settle (ms.map fun (k, v) =>
      match Leaf.all.find? fun l => l.group = g && l.name = LowerCase.ofText k with
      | some l => (l.name, v)
      | none => (k, v))

/-- What variables say of a group: nothing, or a value. -/
def group? (rules : VariableRules) (vars : Variables) (g : Group) :
    Except UnreadableVariable (Option Json) := do
  let groupName := spelled rules (rules.stem ++ g.name)
  let single : Except UnreadableVariable Layer :=
    match rules.delimiter with
    | some d => if d.isEmpty then .ok [] else choices rules d groupName g vars
    | none => .ok []
  match (Members.get? vars groupName).getD none with
  | none =>
      let ms ← single
      return if ms.isEmpty then none else some (.object (canonical rules g ms))
  | some text =>
      if isNullWord rules (some text) then return some .null
      else
        match Json.read settingsLimits text with
        | .error flaw => .error ⟨g.name, flaw⟩
        | .ok .null => return none
        | .ok (.object whole) => return some (.object (canonical rules g (Layer.over (← single) whole)))
        | .ok v => return some v

/-- The layer that variables give. -/
def layer (rules : VariableRules) (vars : Variables) : Except UnreadableVariable Layer :=
  Group.all.foldlM (fun ms g => do
    match ← group? rules vars g with
    | some v => return Members.put g.name v ms
    | none => return ms) []

/-- Does a variable belong to a group, as a whole or by a chain of names? -/
def belongs (rules : VariableRules) (name : String) (g : Group) : Bool :=
  let groupName := spelled rules (rules.stem ++ g.name)
  name = groupName || rules.delimiter.any fun d =>
    !d.isEmpty && (groupName ++ d).toList.isPrefixOf name.toList

/-- The variables of a file that are no settings.  Those without a value, and those that bear the bare
name of a group although there is a stem, do not count. -/
def strangers (rules : VariableRules) (vars : Variables) : Layer :=
  (vars.filter fun (k, v) =>
    (v.getD "" != "") && !(!rules.stem.isEmpty && (Group.all.map Group.name).contains k)
      && !Group.all.any (belongs rules k)).map fun (k, v) => (k, .text (v.getD ""))

end Environment
end ScopeIndex
