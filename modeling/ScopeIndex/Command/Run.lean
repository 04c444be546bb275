import ScopeIndex.Command.Line
import ScopeIndex.Scan.Run
import ScopeIndex.Settings.Load
import ScopeIndex.Text.ControlSequence
import ScopeIndex.Text.Quoted

/-!
# Running the command

The command indexes its sources in order: a directory is scanned, a file is indexed.  Then it prints the
indexes, and the failures on the error channel.  Its exit code tells whether there were any.

## Main definitions

* `Target`, `Workspace.target?` — what a source leads to.
* `Gathered` — the indexes and failures so far, with `Gathered.add` for one more source.
* `CommandSetup` — the surroundings of the command.
* `CommandResult`, `CommandSetup.run` — the end of a run.

## References

The functions `main` and `load_settings` of jsindex.
-/

namespace ScopeIndex

/-- What a path leads to. -/
inductive Target where
  /-- A directory. -/
  | directory (place : Location)
  /-- A file. -/
  | file (content : Content)

/-- Is it a file that the user may not read? -/
def Target.isDenied : Target → Bool
  | file (.faulty fault) => fault.isDenial
  | _ => false

/-- What a path leads to, if anything. -/
def Workspace.target? (w : Workspace) (path : String) : Option Target :=
  match w.find? path with
  | none => none
  | some place =>
      if w.isDirectory place then some (.directory place) else (w.content? place).map .file

/-- Why the command dies without printing anything. -/
inductive CommandFault where
  /-- A path holds the character of code zero, which no path can. -/
  | zeroInPath
  /-- The settings cannot be loaded. -/
  | settings (error : SettingsError)
  /-- A directory cannot be scanned. -/
  | scan (error : ScanError)
  /-- Indexing a file takes from an empty stack. -/
  | indexing (error : Underflow)
  /-- Indexing a file comes to anything else, told in its own words. -/
  | foreign (words : String)
  deriving DecidableEq, Repr

/-- How the command ends. -/
inductive CommandResult where
  /-- It exits with a code, after printing to the two channels. -/
  | exits (code : Nat) (stdout stderr : String)
  /-- It dies. -/
  | dies (fault : CommandFault)
  deriving DecidableEq, Repr

/-- The end of a run that the arguments stop. -/
def CommandResult.ofUsageError (e : UsageError) : CommandResult := .exits 2 "" e.message

/-- The surroundings of the command. -/
structure CommandSetup where
  /-- The files it can see. -/
  workspace : Workspace
  /-- The variables of the process. -/
  env : Members String := []
  /-- The accounts of the machine. -/
  accounts : Accounts := {}
  /-- The number of processors, if it is known. -/
  processors : Option Int := none
  /-- The order in which workers finish. -/
  schedule : Schedule := .inOrder

/-! ### Checking the arguments -/

namespace CommandLine

/-- What a path leads to, or the end of the run if it leads nowhere. -/
def targetIn (w : Workspace) (path : String) (missing : String → UsageError) :
    Except CommandResult Target :=
  if path.toList.any (·.toNat = 0) then .error (.dies .zeroInPath)
  else
    match w.target? path with
    | none => .error (.ofUsageError (missing (Quoted.ofText path)))
    | some target => .ok target

/-- The path of the settings file, if it is one that may be read. -/
def configIn (line : CommandLine) (w : Workspace) : Except CommandResult (Option String) :=
  match line.config with
  | none => .ok none
  | some path => do
      let target ← targetIn w path .configMissing
      match target with
      | .directory _ => .error (.ofUsageError (.configIsDirectory (Quoted.ofText path)))
      | .file _ =>
          if target.isDenied then .error (.ofUsageError (.configUnreadable (Quoted.ofText path)))
          else return some path

/-- What a source leads to, with its path in normal form. -/
def sourceIn (w : Workspace) (path : String) : Except CommandResult (String × Target) := do
  let target ← targetIn w path .sourceMissing
  if target.isDenied then .error (.ofUsageError (.sourceUnreadable (Quoted.ofText path)))
  else return (SlashPath.normal path, target)

/-- What the sources lead to; there has to be one. -/
def sourcesIn (line : CommandLine) (w : Workspace) : Except CommandResult (List (String × Target)) :=
  if line.sources = [] then .error (.ofUsageError .noSources) else line.sources.mapM (sourceIn w)

end CommandLine

/-! ### Settings -/

/-- What the names of variables for the command start with. -/
def CommandSetup.stem : String := "JSINDEX_"

/-- Is a settings file JSON?  Its extension tells. -/
def isJsonFile (path : String) : Bool :=
  LowerCase.ofText (SlashPath.suffix ((SlashPath.steps (SlashPath.normal path)).getLast?.getD "")) = ".json"

/-- The settings of the command: those of the variables and the settings file, and the choice on the
command line about syntax errors. -/
def CommandSetup.settings (setup : CommandSetup) (config : Option String) (tolerant : Option Bool) :
    Except SettingsError Settings := do
  let isJson := config.any isJsonFile
  let s ← Settings.load
    { env := setup.env
      accounts := setup.accounts
      stem := CommandSetup.stem
      workspace := setup.workspace
      tableFile := if isJson then none else config
      jsonFile := if isJson then config else none }
  return { s with tolerant := tolerant.getD s.tolerant }

/-! ### Indexing the sources -/

/-- The indexes and failures so far. -/
structure Gathered where
  /-- The indexes, in the order of the sources. -/
  indexes : List FileIndex := []
  /-- The failures, by the path under which the file was reached. -/
  failures : Members Failure := []

namespace Gathered

/-- Add the result of scanning a directory. -/
def addScan (g : Gathered) (path : String) (summary : ScanSummary) : Gathered where
  indexes := g.indexes ++ summary.files
  failures :=
    summary.failures.foldl (fun fs f => Members.put (SlashPath.below path f.1) f.2 fs) g.failures

/-- Add the result of indexing a file.  Errors of the indexing family and of the system are collected. -/
def addFile (g : Gathered) (path : String) :
    Except Failure FileIndex → Except CommandFault Gathered
  | .ok index => .ok { g with indexes := g.indexes ++ [index] }
  | .error (.indexing e) => .ok { g with failures := Members.put path (.indexing e) g.failures }
  | .error (.system e) => .ok { g with failures := Members.put path (.system e) g.failures }
  | .error (.underflow e) => .error (.indexing e)
  | .error (.foreign words) => .error (.foreign words)

/-- Add a source. -/
def add (setup : CommandSetup) (s : Settings) (g : Gathered) (source : String × Target) :
    Except CommandFault Gathered :=
  match source.2 with
  | .directory place =>
      match setup.workspace.scan place s setup.processors setup.schedule none with
      | .ok summary => .ok (g.addScan source.1 summary)
      | .error e => .error (.scan e)
  | .file content =>
      g.addFile source.1 (content.indexFile source.1 source.1 s.indexRules).result

/-- Add sources in order, until one cannot be added. -/
def addAll (setup : CommandSetup) (s : Settings) (g : Gathered) :
    List (String × Target) → Except CommandFault Gathered
  | [] => .ok g
  | source :: sources =>
      match g.add setup s source with
      | .ok g => addAll setup s g sources
      | .error e => .error e

/-! ### Printing -/

/-- A text as it is printed: control sequences that come from names are taken out, so that they cannot
steer a terminal, and lines end with a line feed alone. -/
def printed (s : String) : String :=
  String.ofList (Lines.joinReturns (ControlSequence.any.strip s.toList))

/-- What is printed about the indexes. -/
def stdout (g : Gathered) (line : CommandLine) : String :=
  if line.json then
    let value : Json := .list (g.indexes.map FileIndex.toJson)
    (if line.pretty then value.pretty 4 else value.compact) ++ "\n"
  else String.join (g.indexes.map fun f => f.listing ++ "\n")

/-- What is told of a failure.  Errors of the indexing family name their file themselves. -/
def told (path : String) : Failure → String
  | .indexing e => e.message
  | failure => path ++ ": " ++ failure.message

/-- What is printed about a failure. -/
def failureLine (path : String) (failure : Failure) : String :=
  "error: " ++ told path failure ++ "\n"

/-- What is printed about the failures. -/
def stderr (g : Gathered) : String := String.join (g.failures.map fun f => failureLine f.1 f.2)

/-- The end of a run. -/
def result (g : Gathered) (line : CommandLine) : CommandResult :=
  .exits (if g.failures = [] then 0 else 1) (printed (g.stdout line)) (printed g.stderr)

end Gathered

/-! ### The whole run -/

namespace CommandSetup

/-- Index what the arguments lead to. -/
def indexSources (setup : CommandSetup) (line : CommandLine) (config : Option String)
    (sources : List (String × Target)) : CommandResult :=
  match setup.settings config line.tolerant with
  | .error e => .dies (.settings e)
  | .ok s =>
      match Gathered.addAll setup s {} sources with
      | .error fault => .dies fault
      | .ok g => g.result line

/-- Run the command.  The settings file is checked before the sources. -/
def run (setup : CommandSetup) (args : List String) : CommandResult :=
  match CommandLine.read args with
  | .error e => .ofUsageError e
  | .ok line =>
      if line.wantsHelp then .exits 0 CommandLine.help ""
      else
        match line.configIn setup.workspace, line.sourcesIn setup.workspace with
        | .error ending, _ => ending
        | .ok _, .error ending => ending
        | .ok config, .ok sources => setup.indexSources line config sources

end CommandSetup
end ScopeIndex
