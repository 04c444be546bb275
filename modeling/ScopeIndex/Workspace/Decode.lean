import ScopeIndex.Json.Reader
import ScopeIndex.Tree.Decode
import ScopeIndex.Workspace.Basic

/-!
# Workspaces in JSON

A snapshot of a workspace is a JSON array with one object per file or directory.  It has the `path`; a
file has its text under `source` or its bytes under `hex`, and under `tree` what the parser made of it; a
directory has `dir` set.

## Main definitions

* `Document.ofJson` — the document of one object.
* `Workspace.ofJson` — the workspace of a snapshot.
-/

namespace ScopeIndex

/-- The bytes that pairs of hexadecimal digits spell out. -/
def bytesOfHex : List Char → List UInt8
  | a :: b :: cs =>
      (((Json.hexValue? a).getD 0) * 16 + (Json.hexValue? b).getD 0).toUInt8 :: bytesOfHex cs
  | _ => []

/-- The source of an object, by its bytes or by its text. -/
def Source.ofJson (v : Json) : Source :=
  match (v.get? "hex").bind Json.text? with
  | some digits => ⟨⟨(bytesOfHex digits.toList).toArray⟩⟩
  | none => .ofText (((v.get? "source").bind Json.text?).getD "")

/-- The document of an object. -/
def Document.ofJson (v : Json) : Document := ⟨.ofJson v, (v.get? "tree").bind Tree.ofJson?⟩

namespace Workspace

/-- Add the file or directory of an object.  The user may not read the paths in `unreadable`. -/
def putJson (unreadable : List String) (w : Workspace) (v : Json) : Workspace :=
  let path := ((v.get? "path").bind Json.text?).getD ""
  let isDir := ((v.get? "dir").bind Json.bool?).getD false
  w.put (w.locate path)
    (if isDir then .directory
    else if unreadable.contains path then .file (.faulty .denied)
    else .file (.readable (.ofJson v)))

/-- The workspace of a snapshot that was taken at a place. -/
def ofJson (snapshot : List Json) (unreadable : List String) (here : Location) : Workspace :=
  snapshot.foldl (putJson unreadable) { here }

end Workspace
end ScopeIndex
