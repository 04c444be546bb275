import ScopeIndex.Slice
import ScopeIndex.Text.Utf8
import ScopeIndex.Tree.Basic

/-!
# Source text

A source is a string of bytes, which need not be well-formed text.  Trees refer to it by byte ranges.

## Main definitions

* `Source.textOf` — the text of a node.
* `Source.lineOf` — the line a node starts on, counted from one.

## References

The functions `get_node_text` and `_first_error_line` of jsindex.
-/

namespace ScopeIndex

/-- The bytes of a source file. -/
structure Source where
  /-- The bytes. -/
  bytes : ByteArray

namespace Source

/-- The source with the bytes of a text. -/
def ofText (s : String) : Source := ⟨s.toUTF8⟩

/-- Does the source hold nothing? -/
def isEmpty (s : Source) : Bool := s.bytes.size = 0

/-- The bytes of a range. -/
def slice (s : Source) (span : Span) : List UInt8 :=
  (s.bytes.extract (Slice.bound s.bytes.size span.start)
    (Slice.bound s.bytes.size span.stop)).data.toList

/-- The text of a node, with replacement characters for malformed bytes. -/
def textOf (s : Source) (l : Label) : String := String.ofList (Utf8.decode (s.slice l.span))

/-- The line feeds before a node. -/
def rowOf (s : Source) (l : Label) : Nat := (s.slice ⟨0, l.span.start⟩).count 10

/-- The line a node starts on, counted from one. -/
def lineOf (s : Source) (l : Label) : Nat := s.rowOf l + 1

end Source
end ScopeIndex
