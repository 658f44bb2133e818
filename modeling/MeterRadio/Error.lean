import MeterRadio.Config.Load
import MeterRadio.Frame.Content
import MeterRadio.Frame.Ring

/-!
# Errors of the whole program

The errors of the parts, under the headings that they have in messages of the program.
-/

namespace MeterRadio

/-- An error of any part. -/
inductive Error
  | frame (e : FrameError)
  /-- A frame was not taken by the ring. -/
  | ring (e : PushError)
  | file (e : FileError)
  /-- A configuration is not usable, in words. -/
  | config (reason : String)
  deriving DecidableEq, Repr

def Error.message : Error → String
  | frame e => e.text
  | ring e => s!"Ring buffer error: {e.message}"
  | file e => s!"I/O error: {e.message}"
  | config reason => s!"Configuration error: {reason}\n"

/-- The error that a failure to load a configuration amounts to. -/
def LoadError.error : LoadError → Error
  | file e => .file e
  | malformed => .config "TOML parse error"
  | mismatch e => .config e.message
  | violation e => .config e.message

end MeterRadio
