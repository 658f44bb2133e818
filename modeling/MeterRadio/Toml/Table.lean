import MeterRadio.Toml.Value

/-!
# Assembling tables

The tables of a document come together from statements in several forms, `[header]`, `[[header]]`
and `dotted.key = value`, and a table that was made by one form may not be changed by every other. A
table under construction therefore remembers its *origin*:

* a table with a header of its own can get sub-tables by longer headers, but neither a second header
  nor entries by dotted keys from outside;
* a table that came up only on the way to a longer header may still get its own header, once;
* a table that came up inside a dotted key may get more entries by dotted keys.

An array of tables is extended by further `[[header]]`s, and all other statements that lead to it
mean its last element. The entries of an inline table are assembled in the same way, by dotted keys
alone.
-/

namespace MeterRadio.Toml

/-- How a table under construction came to be. -/
inductive Origin
  /-- It has a header, or is the document itself. -/
  | header
  /-- It is on the way to the table of a header. -/
  | implied
  /-- It is on the way to the last part of a dotted key. -/
  | dotted
  deriving DecidableEq, Repr

/-- A value under construction. -/
inductive Draft
  | leaf (v : Value)
  | table (origin : Origin) (entries : List (String × Draft))
  /-- An array of tables, each of which has a header. -/
  | tables (elements : List (List (String × Draft)))

/-- The entries of a table under construction. -/
abbrev Entries := List (String × Draft)

namespace Draft

mutual

def value : Draft → Value
  | .leaf v => v
  | .table _ entries => .table (entryValues entries)
  | .tables elements => .array (elementValues elements)
termination_by structural x => x

def entryValue : String × Draft → String × Value
  | (key, d) => (key, d.value)
termination_by structural x => x

def entryValues : List (String × Draft) → List (String × Value)
  | [] => []
  | e :: es => entryValue e :: entryValues es
termination_by structural x => x

/-- The values of the elements of an array of tables. -/
def elementValues : List (List (String × Draft)) → List Value
  | [] => []
  | e :: es => .table (entryValues e) :: elementValues es
termination_by structural x => x

end

end Draft

namespace Entries

/-- What is there under a key. -/
def get? (es : Entries) (key : String) : Option Draft :=
  es.lookup key

/-- Replaces what is there under a key, in its place, or appends it. -/
def put (es : Entries) (key : String) (d : Draft) : Entries :=
  if (es.lookup key).isSome then es.map fun e => if e.1 = key then (key, d) else e
  else es ++ [(key, d)]

def replaceLast {α : Type} (xs : List α) (x : α) : List α :=
  xs.dropLast ++ [x]

/-- Changes the table at the end of a path of keys by `change`, which is told the origin of that
table. Tables that are missing on the way come up with origin `new`. A path of a dotted key does not
lead through tables that have a header of their own. -/
def update (new : Origin) (change : Origin → Entries → Option Entries) :
    (path : List String) → (origin : Origin) → (es : Entries) → Option Entries
  | [], origin, es => change origin es
  | key :: path, _, es =>
    match es.get? key with
    | none => do
      let sub ← update new change path new []
      return es.put key (.table new sub)
    | some (.leaf _) => none
    | some (.table origin sub) =>
      if new = .dotted ∧ origin = .header then none
      else do
        let sub ← update new change path origin sub
        return es.put key (.table origin sub)
    | some (.tables elements) =>
      match elements.getLast? with
      | none => none
      | some last => do
        let last ← update new change path .header last
        return es.put key (.tables (replaceLast elements last))

/-- Adds the entry of `path.key = v` to a table. The table that the entry goes to must have come up
in a dotted key if and only if the key is dotted, and must not have the key yet. -/
def insert (es : Entries) (path : List String) (key : String) (v : Value) : Option Entries :=
  update .dotted
    (fun origin es =>
      if (origin = .dotted ↔ path = []) ∨ (es.get? key).isSome then none
      else some (es ++ [(key, .leaf v)]))
    path .header es

/-- Opens the table of a header `[path.key]`. A table that was only implied so far moves behind the
entries that its parent has by now. -/
def openTable (es : Entries) (path : List String) (key : String) : Option Entries :=
  update .implied
    (fun _ es =>
      match es.get? key with
      | none => some (es ++ [(key, .table .header [])])
      | some (.table .implied sub) =>
        some ((es.filter fun e => e.1 ≠ key) ++ [(key, .table .header sub)])
      | some _ => none)
    path .header es

/-- Opens a new element of the array of tables of a header `[[path.key]]`. -/
def openElement (es : Entries) (path : List String) (key : String) : Option Entries :=
  update .implied
    (fun _ es =>
      match es.get? key with
      | none => some (es ++ [(key, .tables [[]])])
      | some (.tables elements) => some (es.put key (.tables (elements ++ [[]])))
      | some _ => none)
    path .header es

/-- Adds the entry of `path.key = v` below the header with the given path. -/
def insertBelow (es : Entries) (header path : List String) (key : String) (v : Value) :
    Option Entries :=
  update .implied (fun _ es => es.insert path key v) header .header es

end Entries

end MeterRadio.Toml
