import ScopeIndex.Command.Run
import ScopeIndex.Workspace.Decode

/-!
# Snapshots

Sources are parsed elsewhere, so the surroundings of the command come with the tree of every source: a
JSON object with the files under `files`, the paths that may not be read under `unreadable`, the working
directory under `cwd`, the variables of the process under `env`, the home directory of the user under
`home` and those of all accounts under `accounts`.

## Main definitions

* `CommandSetup.ofSnapshot` — the surroundings that a snapshot describes.

## References

The surroundings in which `main` of jsindex runs.
-/

namespace ScopeIndex

namespace CommandSetup

/-- The items of a member of a snapshot. -/
def itemsOf (snapshot : Json) (key : String) : List Json :=
  ((snapshot.get? key).bind Json.list?).getD []

/-- The texts of a member of a snapshot, by name. -/
def textsOf (snapshot : Json) (key : String) : Members String :=
  Members.texts (((snapshot.get? key).bind Json.object?).getD [])

/-- The surroundings that a snapshot describes, on a machine with some number of processors. -/
def ofSnapshot (snapshot : Json) (processors : Option Int) : CommandSetup where
  workspace :=
    .ofJson (itemsOf snapshot "files") ((itemsOf snapshot "unreadable").filterMap Json.text?)
      (({} : Workspace).locate (((snapshot.get? "cwd").bind Json.text?).getD ""))
  env := textsOf snapshot "env"
  accounts :=
    { own := (snapshot.get? "home").bind Json.text?, homes := textsOf snapshot "accounts" }
  processors := processors

end CommandSetup
end ScopeIndex
