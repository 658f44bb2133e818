import MeterRadio.Toml.Number
import MeterRadio.Toml.Table

/-!
# TOML documents

A document is a sequence of lines: blank ones, comments, headers and entries. Values are nested at
most 79 deep. Well-formedness includes the rules of `Toml.Table` on what may be defined twice.
-/

namespace MeterRadio.Toml

/-! ## Values -/

/-- Skips blanks, line breaks and comments up to the next character of a value, at most `rounds`
pieces of them. -/
def skipLayout : (rounds : Nat) → List Char → Option (List Char)
  | 0, cs => some cs
  | rounds + 1, cs =>
    match skipBlanks cs with
    | '#' :: cs => do skipLayout rounds (← afterNewline? (cs.dropWhile isPlain))
    | '\r' :: cs => do skipLayout rounds (← afterNewline? ('\r' :: cs))
    | '\n' :: cs => skipLayout rounds cs
    | cs => some cs

/-- Skips everything between the values of an array. -/
def layout (cs : List Char) : Option (List Char) :=
  skipLayout (cs.length + 1) cs

/-- Reads the elements of an array and its closing bracket, at most `rounds` elements. A comma may
follow the last one. -/
def elements (value : Reader Value) : (rounds : Nat) → Reader (List Value)
  | 0, _ => none
  | rounds + 1, cs => do
    match ← layout cs with
    | ']' :: cs => return ([], cs)
    | cs =>
      let (v, cs) ← value cs
      match ← layout cs with
      | ']' :: cs => return ([v], cs)
      | ',' :: cs =>
        let (vs, cs) ← elements value rounds cs
        return (v :: vs, cs)
      | _ => none

/-- Reads the entries of an inline table and its closing brace, at most `rounds` entries, into the
entries so far. -/
def inlineEntries (value : Reader Value) (es : Entries) : (rounds : Nat) → Reader Entries
  | 0, _ => none
  | rounds + 1, cs => do
    let ((path, name), cs) ← key cs
    let (v, cs) ← value (skipBlanks (← expect '=' cs))
    let es ← es.insert path name v
    match skipBlanks cs with
    | ',' :: cs => inlineEntries value es rounds cs
    | '\x7d' :: cs => return (es, cs)
    | _ => none

/-- Reads a value in which others are nested at most `depth` deep. -/
def value : (depth : Nat) → Reader Value
  | depth, cs =>
    match cs with
    | 't' :: 'r' :: 'u' :: 'e' :: cs => some (.boolean true, cs)
    | 'f' :: 'a' :: 'l' :: 's' :: 'e' :: cs => some (.boolean false, cs)
    | '[' :: cs =>
      match depth with
      | 0 => none
      | depth + 1 =>
        (elements (value depth) (cs.length + 1) cs).map fun (vs, cs) => (.array vs, cs)
    | '\x7b' :: cs =>
      match depth with
      | 0 => none
      | depth + 1 =>
        match skipBlanks cs with
        | '\x7d' :: cs => some (.table [], cs)
        | cs =>
          (inlineEntries (value depth) [] (cs.length + 1) cs).map fun (es, cs) =>
            (.table (Draft.entryValues es), cs)
    | c :: _ =>
      if c = '"' ∨ c = '\'' then (string cs).map fun (s, cs) => (.string s, cs)
      else number cs
    | [] => none

/-! ## Lines -/

/-- A document that has been read up to some line. -/
structure DocumentDraft where
  entries : Entries := []
  /-- The path of the latest header. -/
  header : List String := []

namespace DocumentDraft

/-- Reads a line that starts with a bracket, after this bracket. -/
def headerLine (d : DocumentDraft) : Reader DocumentDraft
  | '[' :: cs => do
    let ((path, name), cs) ← key cs
    let cs ← endLine? (← expect ']' (← expect ']' cs))
    let entries ← d.entries.openElement path name
    return ({ entries, header := path ++ [name] }, cs)
  | cs => do
    let ((path, name), cs) ← key cs
    let cs ← endLine? (← expect ']' cs)
    let entries ← d.entries.openTable path name
    return ({ entries, header := path ++ [name] }, cs)

/-- Reads a line with an entry. -/
def entryLine (d : DocumentDraft) : Reader DocumentDraft := fun cs => do
  let ((path, name), cs) ← key cs
  let (v, cs) ← value (nestingLimit - 1) (skipBlanks (← expect '=' cs))
  let cs ← endLine? cs
  let entries ← d.entries.insertBelow d.header path name v
  return ({ d with entries }, cs)

/-- Reads a line that does not start with a blank. -/
def line (d : DocumentDraft) : Reader DocumentDraft
  | '[' :: cs => d.headerLine cs
  | '#' :: cs => (endLine? ('#' :: cs)).map fun cs => (d, cs)
  | '\n' :: cs => some (d, cs)
  | '\r' :: cs => (afterNewline? ('\r' :: cs)).map fun cs => (d, cs)
  | cs => d.entryLine cs

/-- Reads all lines, at most `rounds` of them. -/
def lines (d : DocumentDraft) : (rounds : Nat) → List Char → Option DocumentDraft
  | 0, _ => none
  | rounds + 1, cs =>
    match skipBlanks cs with
    | [] => some d
    | cs => do
      let (d, cs) ← d.line cs
      d.lines rounds cs

end DocumentDraft

/-- The entries of a document, or nothing if it is not well-formed. A byte order mark at the start
is skipped. -/
def parse? (text : String) : Option (List (String × Value)) := do
  let cs := text.toList
  let cs := if cs.head? = some '\uFEFF' then cs.tail else cs
  let d ← DocumentDraft.lines {} (cs.length + 1) cs
  return Draft.entryValues d.entries

end MeterRadio.Toml
