import ScopeIndex.Text.Likeness
import ScopeIndex.Text.Quoted

/-!
# The command line

The arguments of the command: options, which start with a hyphen, and sources.  Options may stand behind
sources, of two options that contradict each other the last one counts, and everything behind `--` is a
source.  Who mistypes a long option is reminded of those that are like it.

## Main definitions

* `CommandLine` — what the arguments ask for.
* `UsageError` with `message` — what can be wrong with them.
* `CommandLine.read` — the arguments, one by one.
* `CommandLine.help` — the page that describes them.

## References

The options and arguments that jsindex declares for `main`.
-/

namespace ScopeIndex

/-- What the arguments ask for. -/
structure CommandLine where
  /-- Is the index printed as JSON? -/
  json : Bool := false
  /-- Is JSON indented? -/
  pretty : Bool := true
  /-- Are sources with syntax errors indexed?  If unset, the settings decide. -/
  tolerant : Option Bool := none
  /-- The settings file. -/
  config : Option String := none
  /-- Are events of little weight logged? -/
  debug : Bool := false
  /-- Is the help page asked for? -/
  wantsHelp : Bool := false
  /-- The sources, in order. -/
  sources : List String := []
  deriving DecidableEq, Repr

/-- What can be wrong with the arguments. -/
inductive UsageError where
  /-- There is no such option, but there may be some like it. -/
  | noSuchOption (name : String) (like : List String)
  /-- An option is given a value that it does not take. -/
  | takesNoValue (name : String)
  /-- An option lacks its value. -/
  | needsValue (name : String)
  /-- There are no sources. -/
  | noSources
  /-- A source leads nowhere; the path is given in quotes. -/
  | sourceMissing (quoted : String)
  /-- The user may not read a source; the path is given in quotes. -/
  | sourceUnreadable (quoted : String)
  /-- The settings file is not there; the path is given in quotes. -/
  | configMissing (quoted : String)
  /-- The settings file is a directory; the path is given in quotes. -/
  | configIsDirectory (quoted : String)
  /-- The user may not read the settings file; the path is given in quotes. -/
  | configUnreadable (quoted : String)
  deriving DecidableEq, Repr

namespace UsageError

/-- The words that remind of options. -/
def reminder (options : List String) : String :=
  match options.map Quoted.ofText with
  | [] => ""
  | [option] => " Did you mean " ++ option ++ "?"
  | options => " (Did you mean one of: " ++ ", ".intercalate options ++ "?)"

/-- The words for what is wrong. -/
def text : UsageError → String
  | noSuchOption name like => "No such option " ++ Quoted.ofText name ++ "." ++ reminder like
  | takesNoValue name => "Option " ++ Quoted.ofText name ++ " does not take a value."
  | needsValue name => "Option " ++ Quoted.ofText name ++ " requires an argument."
  | noSources => "Missing argument 'SOURCES...'."
  | sourceMissing quoted => "Invalid value for 'SOURCES...': Path " ++ quoted ++ " does not exist."
  | sourceUnreadable quoted =>
      "Invalid value for 'SOURCES...': Path " ++ quoted ++ " is not readable."
  | configMissing quoted => "Invalid value for '--config': File " ++ quoted ++ " does not exist."
  | configIsDirectory quoted =>
      "Invalid value for '--config': File " ++ quoted ++ " is a directory."
  | configUnreadable quoted =>
      "Invalid value for '--config': File " ++ quoted ++ " is not readable."

/-- Does the message remind of the usage?  It does not where an option and its value do not fit. -/
def recallsUsage : UsageError → Bool
  | takesNoValue _ | needsValue _ => false
  | _ => true

/-- How the command is called. -/
def usage : String := "Usage: jsindex [OPTIONS] SOURCES...\n"

/-- What is printed about an error. -/
def message (e : UsageError) : String :=
  (if e.recallsUsage then usage ++ "Try 'jsindex --help' for help.\n\n" else "")
    ++ "Error: " ++ e.text ++ "\n"

end UsageError

namespace CommandLine

/-- The options that are switched on by their names. -/
def switches : List (String × (CommandLine → CommandLine)) :=
  [("--json", fun l => { l with json := true }), ("--text", fun l => { l with json := false }),
    ("--pretty", fun l => { l with pretty := true }), ("--compact", fun l => { l with pretty := false }),
    ("--tolerant", fun l => { l with tolerant := some true }),
    ("--strict", fun l => { l with tolerant := some false }),
    ("--debug", fun l => { l with debug := true }), ("--no-debug", fun l => { l with debug := false }),
    ("--help", fun l => { l with wantsHelp := true })]

/-- The option that takes a value. -/
def configName : String := "--config"

/-- The long options most like a word, at most three of them, in order. -/
def optionsLike (word : String) : List String :=
  (Likeness.closest 3 word (configName :: switches.map (·.1))).mergeSort fun a b => decide (¬ b < a)

/-- The name of an argument, and its value if it has one behind an equals sign. -/
def nameAndValue (arg : String) : String × Option String :=
  let name := arg.toList.takeWhile (· ≠ '=')
  match arg.toList.dropWhile (· ≠ '=') with
  | [] => (arg, none)
  | _ :: value => (String.ofList name, some (String.ofList value))

/-- Is an argument an option?  A lone hyphen is not. -/
def isOption (arg : String) : Bool := arg.toList.head? = some '-' && arg.toList.length > 1

/-- Is an argument an option with a long name? -/
def isLong (arg : String) : Bool := arg.toList.take 2 = ['-', '-']

/-- Take the letters of an argument behind one hyphen as options. -/
def readLetters (line : CommandLine) : List Char → Except UsageError CommandLine
  | [] => .ok line
  | c :: cs =>
      if c = 'h' then readLetters { line with wantsHelp := true } cs
      else .error (.noSuchOption (String.ofList ['-', c]) [])

/-- Take an option that needs no further argument. -/
def readOption (line : CommandLine) (arg : String) : Except UsageError CommandLine :=
  let (name, value) := nameAndValue arg
  match switches.find? (·.1 = name), value with
  | some switch, none => .ok (switch.2 line)
  | some _, some _ => .error (.takesNoValue name)
  | none, some value =>
      if name = configName then .ok { line with config := some value }
      else if isLong arg then .error (.noSuchOption name (optionsLike name))
      else readLetters line arg.toList.tail
  | none, none =>
      if name = configName then .error (.needsValue name)
      else if isLong arg then .error (.noSuchOption name (optionsLike name))
      else readLetters line arg.toList.tail

/-- Take arguments one by one. -/
def readFrom (line : CommandLine) : List String → Except UsageError CommandLine
  | [] => .ok line
  | "--" :: rest => .ok { line with sources := line.sources ++ rest }
  | "--config" :: path :: rest => readFrom { line with config := some path } rest
  | arg :: rest =>
      if isOption arg then
        match readOption line arg with
        | .ok line => readFrom line rest
        | .error e => .error e
      else readFrom { line with sources := line.sources ++ [arg] } rest

/-- What arguments ask for. -/
def read (args : List String) : Except UsageError CommandLine := readFrom {} args

/-- The page that describes the arguments. -/
def help : String :=
  UsageError.usage ++ "
  Index JavaScript SOURCES (files or directories) into per-scope symbol tables
  and print them. Declaring occurrences are marked with '*'.

Options:
  --json / --text        Print the index as JSON instead of an indented listing.
  --pretty / --compact   Indent JSON output.
  --tolerant / --strict  Index files with syntax errors instead of failing them.
  --config FILE          TOML or JSON settings file.
  --debug / --no-debug   Enable debug logging.
  -h, --help             Show this message and exit.
"

end CommandLine
end ScopeIndex
