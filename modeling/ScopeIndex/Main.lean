import ScopeIndex.Command.Snapshot

/-!
# The program

Runs the command on the snapshot that standard input holds.
-/

open ScopeIndex

/-- Run the command with these arguments. -/
def main (args : List String) : IO UInt32 := do
  let input ← (← IO.getStdin).readToEnd
  match Json.read? input with
  | none =>
      IO.eprintln "the snapshot is not JSON"
      return 1
  | some snapshot =>
      match (CommandSetup.ofSnapshot snapshot none).run args with
      | .exits code stdout stderr =>
          IO.print stdout
          IO.eprint stderr
          return code.toUInt32
      | .dies fault =>
          IO.eprintln (reprStr fault)
          return 1
