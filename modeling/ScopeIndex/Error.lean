import ScopeIndex.Text.Quoted

/-!
# Failures

Why indexing a source can fail.  Most failures belong to one family: they have a cause and name the file
they are about.  Apart from these, the system may not hand a file over, and a stack that is taken from
while it is empty underflows.

## Main definitions

* `ScopeFault`, `Cause` — what went wrong.
* `IndexingError` — a cause and the file it is about, with `IndexingError.message`.
* `SystemFault`, `SystemError` — why the system does not hand over a file, and which file.
* `Underflow` — taking from an empty stack.
* `Failure` — any of these.

## References

The exceptions of jsindex: `IndexingError` with its subclasses, and those that `index_file` lets pass.
-/

namespace ScopeIndex

/-- The members of the family of indexing errors. -/
inductive Family where
  /-- No closer description. -/
  | general
  /-- The source cannot be parsed. -/
  | parse
  /-- The source is empty. -/
  | emptySource
  /-- The parser or the scope boundary did not deliver. -/
  | collaborator
  /-- A scope was closed without a matching open, or left open. -/
  | scopeMismatch
  deriving DecidableEq, Repr

/-- How opening and closing of scopes can go wrong. -/
inductive ScopeFault where
  /-- The innermost scope is asked for while none is open. -/
  | noneOpen
  /-- A node of type `closer` closes a scope while none is open. -/
  | unopened (closer : String)
  /-- A node of type `closer` closes the scope of another node, of type `opener`. -/
  | mismatched (opener closer : String)
  /-- There is no open scope `skip` levels out. -/
  | outOfReach (skip : Int)
  /-- The walk ends while `count` scopes are open. -/
  | leftOpen (count : Nat)
  deriving DecidableEq, Repr

/-- The words for a fault. -/
def ScopeFault.text : ScopeFault → String
  | noneOpen => "no scope is open"
  | unopened closer => "scope closed at " ++ closer ++ " without a matching open"
  | mismatched opener closer => "scope opened at " ++ opener ++ " closed by " ++ closer
  | outOfReach skip => "no scope open " ++ toString skip ++ " level(s) out"
  | leftOpen count => toString count ++ " scope(s) left open"

/-- Why indexing failed. -/
inductive Cause where
  /-- The source has a syntax error, first seen on this line. -/
  | unparsable (line : Nat)
  /-- The source is empty. -/
  | nothingToIndex
  /-- There is no syntax tree. -/
  | noTree
  /-- There is no scope boundary. -/
  | noBoundary
  /-- The scope boundary was opened without a syntax tree. -/
  | unattached
  /-- Scopes do not match up. -/
  | scope (fault : ScopeFault)
  /-- A cause in the caller's words. -/
  | stated (family : Family) (text : String)
  deriving DecidableEq, Repr

namespace Cause

/-- The member of the family that a cause belongs to. -/
def family : Cause → Family
  | unparsable _ => .parse
  | nothingToIndex => .emptySource
  | noTree => .collaborator
  | noBoundary => .collaborator
  | unattached => .collaborator
  | scope _ => .scopeMismatch
  | stated family _ => family

/-- The words for a cause. -/
def text : Cause → String
  | unparsable line => "syntax error near line " ++ toString line
  | nothingToIndex => "nothing to index"
  | noTree => "unable to index without a syntax tree"
  | noBoundary => "unable to index without a scope manager"
  | unattached => "scope manager needs a syntax tree"
  | scope fault => fault.text
  | stated _ text => text

end Cause

/-- A failure to index one file. -/
structure IndexingError where
  /-- What went wrong. -/
  cause : Cause
  /-- The file it is about, if known. -/
  path : Option String
  deriving DecidableEq, Repr

/-- The words for an error: the file, unless it is unknown or has no name, and the cause. -/
def IndexingError.message (e : IndexingError) : String :=
  match e.path with
  | none => e.cause.text
  | some path => if path.isEmpty then e.cause.text else path ++ ": " ++ e.cause.text

/-- Can a character stand in the words for a fault of the system?  Colons, quotes and control characters
cannot. -/
def isPlainChar (c : Char) : Bool :=
  32 ≤ c.toNat && c ≠ ':' && c ≠ Quoted.single && c ≠ Quoted.double

/-- Why the system does not hand over the bytes of a file. -/
structure SystemFault where
  /-- The number of the fault. -/
  code : Nat
  /-- The words for it. -/
  words : String
  /-- Can the file not even be opened?  Otherwise reading it breaks off. -/
  opening : Bool
  /-- The words are plain. -/
  plain : words.toList.all isPlainChar = true
  deriving DecidableEq, Repr

namespace SystemFault

/-- The user may not read the file. -/
def denied : SystemFault := ⟨13, "Permission denied", true, by decide +kernel⟩

/-- The words for a fault, with its number. -/
def text (fault : SystemFault) : String :=
  "[Errno " ++ toString fault.code ++ "] " ++ fault.words

/-- Is it that the user may not read the file? -/
def isDenial (fault : SystemFault) : Bool := fault.opening && fault.code = 13

end SystemFault

/-- A fault of the system with one file. -/
structure SystemError where
  /-- What went wrong. -/
  fault : SystemFault
  /-- The path by which the file was opened. -/
  path : String
  deriving DecidableEq, Repr

/-- The words for an error.  Only a file that could not be opened is named. -/
def SystemError.message (e : SystemError) : String :=
  e.fault.text ++ if e.fault.opening then ": " ++ Quoted.ofText e.path else ""

/-- Taking from an empty stack. -/
inductive Underflow where
  /-- Looking at the top. -/
  | top
  /-- Removing the top. -/
  | pop
  deriving DecidableEq, Repr

/-- The words for an underflow. -/
def Underflow.message : Underflow → String
  | top => "list index out of range"
  | pop => "pop from empty list"

/-- Why a file has no index. -/
inductive Failure where
  /-- An error of the indexing family. -/
  | indexing (error : IndexingError)
  /-- The system does not hand the file over. -/
  | system (error : SystemError)
  /-- A stack was taken from while it was empty. -/
  | underflow (error : Underflow)
  /-- Anything else that a parser or a machine can come to, in its own words. -/
  | foreign (words : String)
  deriving DecidableEq, Repr

/-- The words for a failure. -/
def Failure.message : Failure → String
  | indexing e => e.message
  | system e => e.message
  | underflow e => e.message
  | foreign words => words

/-- A failure of the family for a known file. -/
def Failure.ofCause (path : String) (cause : Cause) : Failure := .indexing ⟨cause, some path⟩

end ScopeIndex
