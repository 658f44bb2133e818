import MeterRadio.Config.Schema
import MeterRadio.Text.File
import MeterRadio.Toml.Document

/-!
# Loading a configuration

A configuration is loaded in four steps, each of which can fail: its file is read as text, the text
as a TOML document, the document as a configuration, and the configuration is checked.
-/

namespace MeterRadio

/-- Why a configuration cannot be loaded. -/
inductive LoadError
  /-- Its file cannot be read. -/
  | file (e : FileError)
  /-- The file is not a TOML document. -/
  | malformed
  /-- The document does not describe a configuration. -/
  | mismatch (e : Mismatch)
  /-- The configuration does not keep a bound. -/
  | violation (e : Violation)
  deriving DecidableEq, Repr

/-- Reads a configuration from a tree of values and checks it. -/
def Config.ofTree (entries : List (String × Toml.Value)) : Except LoadError Config := do
  let config ← (Config.ofEntries entries).mapError .mismatch
  config.validate.mapError .violation
  return config

/-- Loads a configuration from the bytes of its file, if there is one. -/
def Config.load (file : Option ByteArray) : Except LoadError Config := do
  let text ← (readText file).mapError .file
  match Toml.parse? text with
  | none => throw .malformed
  | some entries => Config.ofTree entries

end MeterRadio
