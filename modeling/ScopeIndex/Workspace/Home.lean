import ScopeIndex.Json.Value
import ScopeIndex.Workspace.Basic

/-!
# Home directories

A path may start with a tilde, or a tilde and the name of an account; that step stands for a home
directory.  The user's own is told by a variable of the process, or else by the accounts of the machine,
as are all others.

## Main definitions

* `Accounts` — the home directories on a machine.
* `Home.ofName` — the home directory of an account.
* `Home.expand` — a path whose first step stands for itself.
* `Workspace.contentAt` — the file that a path leads to.

## References

The paths of settings files that `load_settings` of jsindex hands on, which are expanded before a file is
opened.
-/

namespace ScopeIndex

/-- The home directories on a machine. -/
structure Accounts where
  /-- That of the user, if the user has an account. -/
  own : Option String := none
  /-- Those of all accounts, by name. -/
  homes : Members String := []

/-- There is no telling where a home directory is. -/
structure HomeUnknown where
  /-- The name of the account; empty for the user. -/
  name : String
  deriving DecidableEq, Repr

namespace Home

/-- The home directory that a tilde and a name stand for.  One that starts with a tilde itself is none. -/
def ofName (accounts : Accounts) (env : Members String) (name : String) :
    Except HomeUnknown String :=
  let home? :=
    if name = "" then (Members.get? env "HOME").or accounts.own
    else Members.get? accounts.homes name
  match home? with
  | none => .error ⟨name⟩
  | some home => if home.toList.head? = some '~' then .error ⟨name⟩ else .ok home

/-- A path in normal form whose first step stands for itself.  A home directory without a name is the
top. -/
def expand (accounts : Accounts) (env : Members String) (path : String) :
    Except HomeUnknown String :=
  let path := SlashPath.normal path
  match SlashPath.steps path with
  | [] => .ok path
  | first :: rest =>
      match first.toList with
      | '~' :: name => do
          let home ← ofName accounts env (String.ofList name)
          return Separated.ofPieces '/' ((if home = "" then "/" else home) :: rest)
      | _ => .ok path

end Home

/-- The place that a path leads to, on a machine with accounts and by the variables of the process. -/
def Workspace.placeAt (w : Workspace) (accounts : Accounts) (env : Members String) (path : String) :
    Except HomeUnknown (Option Location) := do
  return w.find? (← Home.expand accounts env path)

/-- The content of the file that a path leads to, if it leads to one. -/
def Workspace.contentAt (w : Workspace) (accounts : Accounts) (env : Members String) (path : String) :
    Except HomeUnknown (Option Content) := do
  return (← w.placeAt accounts env path).bind w.content?

end ScopeIndex
