import MeterRadio.Config.Load

/-!
# Documents that write a configuration down

A document says what a configuration is if it has the five sections as tables, in whatever order. A
section gives its values under its keys, again in whatever order, and may leave out what has its
default. Whatever else there is in the document or in a section means nothing.
-/

namespace MeterRadio

open Toml (Value)

/-! ## Sections in full -/

def ReceiverConfig.entries (s : ReceiverConfig) : List (String × Value) :=
  [("ring_capacity", .integer s.ringCapacity),
    ("start_enabled", .boolean s.startEnabled)]

def DispatchConfig.entries (s : DispatchConfig) : List (String × Value) :=
  [("drain_interval_ms", .integer s.drainInterval),
    ("stats_interval_s", .integer s.statsInterval)]

def CaptureConfig.entries (s : CaptureConfig) : List (String × Value) :=
  [("path", .string s.path),
    ("bit_rate_hz", .integer s.bitRate.toNat)]

def OutputConfig.entries (s : OutputConfig) : List (String × Value) :=
  [("format", .string s.format)]

def LoggingConfig.entries (s : LoggingConfig) : List (String × Value) :=
  [("level", .string s.level),
    ("log_dir", .string s.logDir)]

/-! ## Documents -/

/-- Whether a table writes a section down whose entries are `full`, where those that are left out are
among `defaults`. -/
structure Writes (full defaults table : List (String × Value)) : Prop where
  /-- Known keys have the values of the section. -/
  agrees : ∀ e ∈ table, ∀ f ∈ full, e.1 = f.1 → e.2 = f.2
  /-- What is not there has its default. -/
  complete : ∀ f ∈ full, f ∈ table ∨ f ∈ defaults

/-- Whether a document writes a section down under its name. -/
structure HasSection (tree : List (String × Value)) (name : String)
    (full defaults : List (String × Value)) : Prop where
  present : name ∈ tree.map Prod.fst
  writes : ∀ v, (name, v) ∈ tree → ∃ table, v = .table table ∧ Writes full defaults table

/-- Whether a document writes a configuration down. -/
structure Config.WrittenAs (c : Config) (tree : List (String × Value)) : Prop where
  receiver : HasSection tree "receiver" c.receiver.entries (ReceiverConfig.entries {})
  dispatch : HasSection tree "dispatch" c.dispatch.entries (DispatchConfig.entries {})
  capture : HasSection tree "capture" c.capture.entries (CaptureConfig.entries {})
  output : HasSection tree "output" c.output.entries (OutputConfig.entries {})
  logging : HasSection tree "logging" c.logging.entries (LoggingConfig.entries {})

end MeterRadio
