import ScopeIndex.Journal.Event
import ScopeIndex.Number.Shortest
import ScopeIndex.Text.Lines
import ScopeIndex.Text.Quoted
import ScopeIndex.Text.Utf16

/-!
# The console

Where events are shown.  A console has a threshold of its own and handlers with theirs; an event is shown
by each handler that writes, if it reaches both thresholds.  Configuring a console sets all thresholds,
and gives it a handler that writes only if it has none.

## Main definitions

* `Handler`, `Console` — who shows events, and the threshold.
* `Console.configure` — set the thresholds.
* `Console.line` — the line of an event.
* `Console.log` — the lines that an event causes.

## References

The function `configure_logging` of jsindex.
-/

namespace ScopeIndex

/-- One who is given events. -/
structure Handler where
  /-- The least rank of events that count. -/
  threshold : Nat
  /-- Are events written, or thrown away? -/
  writes : Bool
  deriving DecidableEq, Repr

/-- Where events are shown. -/
structure Console where
  /-- The least rank of events that count. -/
  threshold : Nat := Level.warning.rank
  /-- Who is given events. -/
  handlers : List Handler := []
  deriving DecidableEq, Repr

namespace Console

/-- A console with handlers that throw everything away. -/
def deaf (count : Nat) : Console := { handlers := List.replicate count ⟨0, false⟩ }

/-- Set the thresholds: everything is shown while a fault is looked for, and else only what may be
wrong. -/
def configure (c : Console) (debug : Bool) : Console :=
  let rank := (if debug then Level.debug else Level.warning).rank
  if c.handlers = [] then ⟨rank, [⟨rank, true⟩]⟩
  else ⟨rank, c.handlers.map fun h => { h with threshold := rank }⟩

/-- A text filled up with blanks to a width. -/
def padded (width : Nat) (s : String) : String :=
  s ++ String.ofList (List.replicate (width - s.toList.length) ' ')

/-- The characters for which a text is shown in quotes. -/
def delicate : List Char := [' ', '\t', '=', '\r', '\n', Quoted.single, Quoted.double]

mutual

/-- How a value inside another one is shown: texts are always in quotes. -/
def innerForm : Json → String
  | .null => "None"
  | .bool b => if b then "True" else "False"
  | .int n => toString n
  | .real x => x.text
  | .text s => Quoted.ofText s
  | .torn points => Quoted.ofText (String.ofList (Utf16.chars points))
  | .moment s => s
  | .list vs => "[" ++ ", ".intercalate (innerForms vs) ++ "]"
  | .object ms => "\x7b" ++ ", ".intercalate (innerMembers ms) ++ "\x7d"
  | .misnamed v => innerForm v

/-- How the items of an array are shown. -/
def innerForms : List Json → List String
  | [] => []
  | v :: vs => innerForm v :: innerForms vs

/-- How the members of an object are shown. -/
def innerMembers : List (String × Json) → List String
  | [] => []
  | (k, v) :: ms => (Quoted.ofText k ++ ": " ++ innerForm v) :: innerMembers ms

end

/-- How the value of a field is shown: a text stands as it is, unless one could not see where it ends. -/
def valueForm : Json → String
  | .text s => if s.toList.any delicate.contains then Quoted.ofText s else s
  | v => innerForm v

/-- How a value is shown where it has a place of its own: a text stands as it is. -/
def plainForm : Json → String
  | .text s => s
  | v => innerForm v

/-- The fields that are shown in brackets behind the title. -/
def originFields : List String := ["logger", "logger_name"]

/-- The fields that are not shown among the others: those in brackets, those that the console fills in
itself, and those that ask for more than a line. -/
def asideFields : List String :=
  originFields ++ ["timestamp", "level", "event", "stack", "exception", "stack_info", "exc_info"]

/-- The line of an event: its level, its title, where it comes from and its other fields by name. -/
def line (level : Level) (title : String) (fields : Members Json) : String :=
  let origins := originFields.filterMap fun k =>
    (Members.get? fields k).map fun v => "[" ++ plainForm v ++ "]"
  let others := fields.filter fun f => !asideFields.contains f.1
  let shown := (others.mergeSort fun a b => a.1 ≤ b.1).map fun f => f.1 ++ "=" ++ valueForm f.2
  "[" ++ padded 9 level.name ++ "] " ++ " ".intercalate (padded 30 title :: (origins ++ shown))

/-- The rule between two texts. -/
def rule : String := String.ofList (List.replicate 79 '=')

/-- The text below the line of an event: where it happened and what went wrong.  A rule follows the former
if the latter is there or asked for. -/
def appendix (fields : Members Json) : String :=
  let exception := (Members.get? fields "exception").bind Json.text?
  let asked := ((Members.get? fields "exc_info").map Json.isTruthy).getD false
  let stack :=
    match (Members.get? fields "stack").bind Json.text? with
    | none => ""
    | some stack =>
        "\n" ++ stack ++ if asked || exception.isSome then "\n\n" ++ rule ++ "\n" else ""
  stack ++ (exception.map fun text => "\n" ++ text).getD ""

/-- The lines that an event of a file causes, at a time. -/
def log (c : Console) (time : String) (level : Level) (title : String) (path : Json)
    (fields : Members Json) : List String :=
  if c.threshold ≤ level.rank then
    let fields := fields.foldl (fun fs f => Members.put f.1 f.2 fs) [("path", path)]
    let text := time ++ " " ++ line level title fields ++ appendix fields ++ "\n"
    (c.handlers.filter fun h => h.writes && h.threshold ≤ level.rank).flatMap fun _ =>
      (Lines.split text.toList).map String.ofList
  else []

end Console
end ScopeIndex
