import ScopeIndex.Index.Document
import ScopeIndex.Text.SlashPath

/-!
# Workspaces

The files and directories that a scan or a command can see, with what is in them.  A place is given by
the names on the way from the top of the file system.  Some place is the one where the user is; paths that
are not absolute start there.  A directory is there as soon as something is in it, and can be listed; the
system may not hand over a file.

## Main definitions

* `Entry`, `Workspace` — what stands at a place, and the places that are filled.
* `Workspace.put` — fill a place.
* `Workspace.locate` — the place that a path names, whether or not it is there.
* `Workspace.resolve?`, `Workspace.find?` — the place that steps or a path lead to.
* `Workspace.below`, `Workspace.filesBelow` — everything below a place, and the files, in order.
-/

namespace ScopeIndex

/-- The names on the way from the top. -/
abbrev Location := List String

/-- What stands at a place. -/
inductive Entry where
  /-- A file. -/
  | file (content : Content)
  /-- A directory. -/
  | directory

/-- What there is to be had of a file. -/
def Entry.content? : Entry → Option Content
  | file content => some content
  | directory => none

/-- The files and directories that can be seen. -/
structure Workspace where
  /-- The places that are filled. -/
  entries : List (Location × Entry) := []
  /-- The place where the user is. -/
  here : Location := []

namespace Workspace

/-- Fill a place.  What stood there is replaced. -/
def put (w : Workspace) (place : Location) (entry : Entry) : Workspace :=
  { w with entries := w.entries.filter (·.1 ≠ place) ++ [(place, entry)] }

/-- What stands at a place. -/
def get? (w : Workspace) (place : Location) : Option Entry :=
  (w.entries.find? (·.1 = place)).map (·.2)

/-- The content of the file at a place. -/
def content? (w : Workspace) (place : Location) : Option Content :=
  (w.get? place).bind Entry.content?

/-- Is there a directory at a place? -/
def isDirectory (w : Workspace) (place : Location) : Bool :=
  place <+: w.here
    || (w.entries.any fun e => place <+: e.1 && (place ≠ e.1 || e.2.content?.isNone))

/-- Is there anything at a place? -/
def holds (w : Workspace) (place : Location) : Bool :=
  w.isDirectory place || (w.content? place).isSome

/-- The place where a path starts. -/
def start (w : Workspace) (path : String) : Location :=
  if SlashPath.isAbsolute path then [] else w.here

/-- The place that a path names.  A step back undoes the one before, whatever that leads to. -/
def locate (w : Workspace) (path : String) : Location :=
  (SlashPath.steps path).foldl SlashPath.walk (w.start path)

/-- The place that steps lead to.  One can only go on from a directory. -/
def resolve? (w : Workspace) (place : Location) : List String → Option Location
  | [] => some place
  | step :: steps =>
      let next := SlashPath.walk place step
      if w.isDirectory place && w.holds next then w.resolve? next steps else none

/-- The place that a path leads to. -/
def find? (w : Workspace) (path : String) : Option Location :=
  if path.isEmpty then none else w.resolve? (w.start path) (SlashPath.steps path)

/-- The order of locations: name by name, from the top. -/
def locationLe : Location → Location → Bool
  | [], _ => true
  | _ :: _, [] => false
  | a :: as, b :: bs => a < b || (a = b && locationLe as bs)

/-- Everything below a place, in the order of the places, each seen from there. -/
def below (w : Workspace) (root : Location) : List (Location × Entry) :=
  (w.entries.filterMap fun e =>
    if root <+: e.1 ∧ root ≠ e.1 then some (e.1.drop root.length, e.2) else none).mergeSort
      fun a b => locationLe a.1 b.1

/-- The files below a place, in order. -/
def filesBelow (w : Workspace) (root : Location) : List (Location × Content) :=
  (w.below root).filterMap fun e => e.2.content?.map fun content => (e.1, content)

end Workspace
end ScopeIndex
