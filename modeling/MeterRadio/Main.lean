import MeterRadio.Program
import Std.Time

/-!
# Command line

Reads the files, runs the program, prints its output lines to standard output and its log to standard
error, and writes the log to a file of the day where the configuration asks for it.
-/

namespace MeterRadio.Main

/-- The content of a file, if it can be read. -/
def contentOf (path : String) : IO (Option ByteArray) := do
  try
    return some (← IO.FS.readBinFile path)
  catch _ =>
    return none

/-- Opens the file of the day for the log in a directory, which is made where it is missing. -/
def openLog (dir day : String) : IO (Option IO.FS.Handle) := do
  try
    IO.FS.createDirAll dir
    return some (← IO.FS.Handle.mk s!"{dir}/amr-decoder.log.{day}" .append)
  catch _ =>
    return none

end MeterRadio.Main

open MeterRadio in
/-- Runs the program; the first argument names the configuration. -/
def main (args : List String) : IO UInt32 := do
  let now := Std.Time.DateTime.ofTimestamp (← Std.Time.Timestamp.now)
    Std.Time.TimeZone.ZoneRules.UTC
  let day := now.format "uuuu-MM-dd"
  let receivedAt := day ++ "T" ++ now.format "HH:mm:ss.SSSSSSSSSxxx"
  let configPath := args.headD Program.defaultConfigPath
  let config ← Main.contentOf configPath
  let (logFile, capture) ← match Config.load config with
    | .ok c => do
      let logFile ← match Program.logDir? c.logging with
        | some dir => Main.openLog dir day
        | none => pure none
      pure (logFile, ← Main.contentOf c.capture.path)
    | .error _ => pure (none, none)
  let files : Program.Files :=
    { content := fun path => if path = configPath then config else capture
      takesLog := fun _ => logFile.isSome }
  let run := Program.run files configPath
  for d in run.deliveries do
    IO.println (d.record.line receivedAt d.kind d.raw)
  for l in run.log do
    let line := receivedAt ++ " " ++ l.render
    IO.eprintln line
    if let some handle := logFile then
      handle.putStrLn line
  if let some f := run.failure then
    IO.eprintln f.report
  return UInt32.ofNat run.exitCode
