import MeterRadio.Config.Basic
import MeterRadio.Text.Quoted
import MeterRadio.Toml.Value

/-!
# Reading a configuration from a tree of values

The sections of a configuration are tables at the top of a document, in any order and with their
entries in any order. An entry that is left out has its default; a section must be there, even if it
is empty. What the configuration does not know is ignored.

A section may also be given as an array of its entries in their declared order, and entries at its
end may be left out. A date stands for a section without any known entry.

Of several faults the first one in the document is reported; a missing section is a fault at the end
of it.
-/

namespace MeterRadio

open Toml (Value)

/-- What stands where something else was expected. -/
inductive Found
  | boolean (b : Bool)
  | integer (n : Int)
  | float (x : Decimal.Binary64)
  | string (s : String)
  | sequence
  /-- A table or a date. -/
  | map
  deriving DecidableEq, Repr

/-- How a found value is named in a message. -/
def Found.text : Found → String
  | boolean true => "boolean `true`"
  | boolean false => "boolean `false`"
  | integer n => s!"integer `{n}`"
  | float x => s!"floating point `{x.text}`"
  | string s => s!"string {Text.quote s}"
  | sequence => "sequence"
  | map => "map"

/-- What a value is found to be. -/
def Toml.Value.found : Value → Found
  | .string s => .string s
  | .integer n => .integer n
  | .float x => .float x
  | .boolean b => .boolean b
  | .array _ => .sequence
  | .table _ | .dateTime => .map

/-- Why a tree of values is not a configuration. -/
inductive Mismatch
  /-- A section is not there. -/
  | missing (name : String)
  /-- A value is of the wrong type. -/
  | wrongType (found : Found) (expected : String)
  /-- A number is outside the range of its entry. -/
  | outOfRange (n : Int) (expected : String)
  deriving DecidableEq, Repr

def Mismatch.message : Mismatch → String
  | missing name => s!"missing field `{name}`"
  | wrongType found expected => s!"invalid type: {found.text}, expected {expected}"
  | outOfRange n expected => s!"invalid value: {Found.text (.integer n)}, expected {expected}"

namespace Schema

/-! ## Entries -/

/-- Reads a natural number below `bound`, whose type has the given name. -/
def natural (expected : String) (bound : Nat) : Value → Except Mismatch Nat
  | .integer n =>
    if 0 ≤ n ∧ n < bound then .ok n.toNat else .error (.outOfRange n expected)
  | v => .error (.wrongType v.found expected)

def boolean : Value → Except Mismatch Bool
  | .boolean b => .ok b
  | v => .error (.wrongType v.found "a boolean")

def string : Value → Except Mismatch String
  | .string s => .ok s
  | v => .error (.wrongType v.found "a string")

/-- An entry of a section of type `σ`. -/
structure Entry (σ : Type) where
  key : String
  /-- Takes over the value of the entry. -/
  set : σ → Value → Except Mismatch σ

def receiver : List (Entry ReceiverConfig) :=
  [{ key := "ring_capacity"
     set := fun s v => do return { s with ringCapacity := ← natural "usize" UInt64.size v } },
   { key := "start_enabled"
     set := fun s v => do return { s with startEnabled := ← boolean v } }]

def dispatch : List (Entry DispatchConfig) :=
  [{ key := "drain_interval_ms"
     set := fun s v => do return { s with drainInterval := ← natural "u64" UInt64.size v } },
   { key := "stats_interval_s"
     set := fun s v => do return { s with statsInterval := ← natural "u64" UInt64.size v } }]

def capture : List (Entry CaptureConfig) :=
  [{ key := "path"
     set := fun s v => do return { s with path := ← string v } },
   { key := "bit_rate_hz"
     set := fun s v => do return { s with bitRate := UInt32.ofNat (← natural "u32" UInt32.size v) } }]

def output : List (Entry OutputConfig) :=
  [{ key := "format"
     set := fun s v => do return { s with format := ← string v } }]

def logging : List (Entry LoggingConfig) :=
  [{ key := "level"
     set := fun s v => do return { s with level := ← string v } },
   { key := "log_dir"
     set := fun s v => do return { s with logDir := ← string v } }]

/-! ## Sections -/

/-- Takes over named values in order, ignoring those whose key is not known. -/
def readEntries {σ : Type} (entries : List (Entry σ)) (s : σ) :
    List (String × Value) → Except Mismatch σ
  | [] => .ok s
  | (key, v) :: rest =>
    match entries.find? fun e => e.key == key with
    | some e => do readEntries entries (← e.set s v) rest
    | none => readEntries entries s rest

/-- Takes over values in the declared order of the entries, ignoring those past the last entry. -/
def readInOrder {σ : Type} (s : σ) : List (Entry σ) → List Value → Except Mismatch σ
  | e :: entries, v :: rest => do readInOrder (← e.set s v) entries rest
  | _, _ => .ok s

/-- Reads a section of a type with the given name. -/
def readSection {σ : Type} (typeName : String) (entries : List (Entry σ)) (default : σ) :
    Value → Except Mismatch σ
  | .table values => readEntries entries default values
  | .array values => readInOrder default entries values
  | .dateTime => .ok default
  | v => .error (.wrongType v.found s!"struct {typeName}")

/-- The sections read so far. -/
structure Sections where
  receiver : Option ReceiverConfig := none
  dispatch : Option DispatchConfig := none
  capture : Option CaptureConfig := none
  output : Option OutputConfig := none
  logging : Option LoggingConfig := none

def sections : List (Entry Sections) :=
  [{ key := "receiver"
     set := fun s v => do
      return { s with receiver := some (← readSection "ReceiverConfig" receiver {} v) } },
   { key := "dispatch"
     set := fun s v => do
      return { s with dispatch := some (← readSection "DispatchConfig" dispatch {} v) } },
   { key := "capture"
     set := fun s v => do
      return { s with capture := some (← readSection "CaptureConfig" capture {} v) } },
   { key := "output"
     set := fun s v => do
      return { s with output := some (← readSection "OutputConfig" output {} v) } },
   { key := "logging"
     set := fun s v => do
      return { s with logging := some (← readSection "LoggingConfig" logging {} v) } }]

/-- A section that must be there. -/
def require {σ : Type} (name : String) : Option σ → Except Mismatch σ
  | some s => .ok s
  | none => .error (.missing name)

end Schema

open Schema in
/-- Reads a configuration from the entries of a document. -/
def Config.ofEntries (entries : List (String × Value)) : Except Mismatch Config := do
  let s ← readEntries sections {} entries
  return {
    receiver := ← require "receiver" s.receiver
    dispatch := ← require "dispatch" s.dispatch
    capture := ← require "capture" s.capture
    output := ← require "output" s.output
    logging := ← require "logging" s.logging }

end MeterRadio
