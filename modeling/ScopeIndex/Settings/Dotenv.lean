import ScopeIndex.Json.Value
import ScopeIndex.Text.Lines

/-!
# Files of variables

A file of variables has one binding per line: a name, and behind an equals sign a value, which may be
quoted and may then go over several lines.  The word `export` may stand in front.  A line that is no
binding is passed over.  A value may name other variables, `${NAME}`, with what counts if there is none,
`${NAME:-word}`; those of the lines before win over those of the process.

## Main definitions

* `Dotenv.binding` — one binding at the front of the text.
* `Dotenv.expand` — a value with the variables that it names.
* `Dotenv.read` — all bindings of a text.

## References

The argument `env_file` of `load_settings` in jsindex, whose file `pydantic_settings` has read as a dotenv
file.
-/

namespace ScopeIndex
namespace Dotenv

/-- A name, and the value bound to it if there is one. -/
abbrev Binding := String × Option String

/-- A blank that does not end the line. -/
def isInline (c : Char) : Bool := Lines.isBlank c && c ≠ '\n'

/-- The text behind the end of its first line. -/
def nextLine (cs : List Char) : List Char := (cs.dropWhile (· ≠ '\n')).drop 1

/-- The text behind the word `export` and a blank, if it starts with them. -/
def skipExport (cs : List Char) : List Char :=
  let word := "export".toList
  if word.isPrefixOf cs then
    let rest := cs.drop word.length
    if (rest.takeWhile isInline).isEmpty then cs else rest.dropWhile isInline
  else cs

/-! ### Values -/

/-- A quoted value behind its opening quote `q`, escapes kept, up to the closing quote, and what follows
it.  A character behind a backslash does not close. -/
def readQuoted (q : Char) : List Char → Option (List Char × List Char)
  | [] => none
  | '\\' :: c :: cs => (readQuoted q cs).map fun (v, r) => ('\\' :: c :: v, r)
  | c :: cs => if c = q then some ([], cs) else (readQuoted q cs).map fun (v, r) => (c :: v, r)

/-- The character that a letter behind a backslash means between double quotes. -/
def escapeChar? (c : Char) : Option Char :=
  match c with
  | '\\' => some '\\'
  | '\x27' => some '\x27'
  | '\x22' => some '\x22'
  | 'a' => some (Char.ofNat 0x07)
  | 'b' => some (Char.ofNat 0x08)
  | 'f' => some (Char.ofNat 0x0C)
  | 'n' => some '\n'
  | 'r' => some '\r'
  | 't' => some '\t'
  | 'v' => some (Char.ofNat 0x0B)
  | _ => none

/-- A value with its escapes replaced, by a table of escapes. -/
def unescape (table : Char → Option Char) : List Char → List Char
  | [] => []
  | '\\' :: c :: cs =>
      match table c with
      | some e => e :: unescape table cs
      | none => '\\' :: unescape table (c :: cs)
  | c :: cs => c :: unescape table cs
termination_by cs => cs.length

/-- The escapes between single quotes. -/
def singleEscape? (c : Char) : Option Char := if c = '\\' ∨ c = '\x27' then some c else none

/-- A bare value without the comment that a blank and a number sign begin, and without blanks at its
end. -/
def bareValue : List Char → List Char
  | [] => []
  | c :: cs =>
      if Lines.isBlank c && ((c :: cs).dropWhile Lines.isBlank).head? = some '#' then []
      else
        let rest := bareValue cs
        if rest.isEmpty && Lines.isBlank c then [] else c :: rest

/-- A value behind its equals sign.  Blanks in front of it do not belong to it, but they can begin a
comment. -/
def readValue (cs : List Char) : Option (List Char × List Char) :=
  match cs.dropWhile isInline with
  | '\x27' :: r => (readQuoted '\x27' r).map fun (v, r) => (unescape singleEscape? v, r)
  | '\x22' :: r => (readQuoted '\x22' r).map fun (v, r) => (unescape escapeChar? v, r)
  | _ =>
      let line := bareValue (cs.takeWhile (· ≠ '\n'))
      some (line.dropWhile isInline, cs.dropWhile (· ≠ '\n'))

/-! ### Bindings -/

/-- The text behind an optional comment and the end of the line; none when something else stands
there. -/
def endOfLine? (cs : List Char) : Option (List Char) :=
  match cs.dropWhile isInline with
  | [] => some []
  | c :: r => if c = '\n' then some r else if c = '#' then some (nextLine r) else none

/-- A name at the front of the text. -/
def readName (cs : List Char) : Option (List Char × List Char) :=
  match cs with
  | '\x27' :: r =>
      let name := r.takeWhile (· ≠ '\x27')
      match r.dropWhile (· ≠ '\x27') with
      | _ :: rest => if name.isEmpty then none else some (name, rest)
      | [] => none
  | _ =>
      let ends (c : Char) : Bool := c = '=' || c = '#' || Lines.isBlank c
      let name := cs.takeWhile fun c => !ends c
      if name.isEmpty then none else some (name, cs.dropWhile fun c => !ends c)

/-- A binding whose line ends here, and the text behind the line; no binding if it does not. -/
def finish (b : Binding) (cs : List Char) : Option Binding × List Char :=
  match endOfLine? cs with
  | some rest => (some b, rest)
  | none => (none, nextLine cs)

/-- One binding at the front of the text, and the text behind its line.  A line that is no binding ends
behind the part of it that could be read. -/
def binding (cs : List Char) : Option Binding × List Char :=
  match readName (skipExport cs) with
  | none => (none, nextLine cs)
  | some (name, rest) =>
      match rest.dropWhile isInline with
      | '=' :: r =>
          match readValue r with
          | none => (none, nextLine r)
          | some (value, r) => finish (String.ofList name, some (String.ofList value)) r
      | r => finish (String.ofList name, none) r

/-- The bindings of a text, at most `fuel` lines of it. -/
def bindings : Nat → List Char → List Binding
  | 0, _ => []
  | fuel + 1, cs =>
      match cs.dropWhile Lines.isBlank with
      | [] => []
      | '#' :: r => bindings fuel (nextLine r)
      | r =>
          match binding r with
          | (some b, rest) => b :: bindings fuel rest
          | (none, rest) => bindings fuel rest

/-! ### Variables in values -/

/-- A variable that a value names, its opening brace taken: the name, what counts if there is none, and
what follows the closing brace. -/
def readReference (cs : List Char) : Option (String × String × List Char) :=
  let inName (c : Char) : Bool := c ≠ '\x7d' && c ≠ ':'
  let name := String.ofList (cs.takeWhile inName)
  match cs.dropWhile inName with
  | '\x7d' :: r => some (name, "", r)
  | ':' :: '-' :: r =>
      match r.dropWhile (· ≠ '\x7d') with
      | _ :: rest => some (name, String.ofList (r.takeWhile (· ≠ '\x7d')), rest)
      | [] => none
  | _ => none

/-- A value with the variables that it names; each round takes at least one character. -/
def expandChars (vars : Members (Option String)) : Nat → List Char → List Char
  | 0, cs => cs
  | _, [] => []
  | fuel + 1, c :: cs =>
      match c, cs with
      | '$', '\x7b' :: r =>
          match readReference r with
          | some (name, fallback, rest) =>
              let found := (Members.get? vars name).getD (some fallback)
              (found.getD "").toList ++ expandChars vars fuel rest
          | none => c :: expandChars vars fuel cs
      | _, _ => c :: expandChars vars fuel cs

/-- A value with the variables that it names. -/
def expand (vars : Members (Option String)) (value : String) : String :=
  String.ofList (expandChars vars (value.length + 1) value.toList)

/-- Bindings whose values are expanded one by one, by those before them and by the variables of the
process.  Of two with the same name the later counts. -/
def resolve (env : Members String) (bs : List Binding) : Members (Option String) :=
  bs.foldl (fun done (name, value) =>
    let vars := done ++ env.map fun (k, v) => (k, some v)
    Members.put name (value.map (expand vars)) done) []

/-- The text behind a mark of the order of bytes. -/
def skipMark : List Char → List Char
  | c :: cs => if c.toNat = 0xFEFF then cs else c :: cs
  | [] => []

/-- All bindings of a text, among the variables of the process. -/
def read (env : Members String) (s : String) : Members (Option String) :=
  let cs := Lines.unify (skipMark s.toList)
  resolve env (bindings (cs.length + 1) cs)

end Dotenv
end ScopeIndex
