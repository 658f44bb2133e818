import MeterRadio.Decimal.Shortest
import MeterRadio.Error
import MeterRadio.Replay.Session
import MeterRadio.Report.Line

/-!
# The program

The program loads a configuration, opens the log file that it asks for, replays the capture that it
names through a receiver and reports every accepted record as one line of output. `Program.run` is
all of it but for files, printing and the time of day.
-/

namespace MeterRadio.Program

def version : String := "0.1.0"

/-- The configuration that is used when none is named. -/
def defaultConfigPath : String := "config/default.toml"

/-- Why the program gives up. -/
inductive Failure
  /-- A file that it reads is of no use. -/
  | input (context : String) (cause : Error)
  /-- The log file cannot be opened. -/
  | logFile
  deriving DecidableEq, Repr

def Failure.report : Failure → String
  | input context cause => s!"Error: {context}\n\nCaused by:\n    {cause.message}"
  | logFile => "The log file cannot be opened"

/-- The status that the program exits with after a failure. -/
def Failure.exitCode : Failure → Nat
  | input _ _ => 1
  | logFile => 101

/-- What the program can do with the files around it. -/
structure Files where
  /-- The content of the file at a path, if it can be read. -/
  content : String → Option ByteArray
  /-- Whether a file of the log can be opened in a directory, which is made where it is missing. -/
  takesLog : String → Bool

/-- What a run of the program does. -/
structure Run where
  /-- Records to report, in order. -/
  deliveries : List (Delivery Unit) := []
  /-- Lines of the log that are shown, in order. -/
  log : List LogLine := []
  /-- Directory in which the log is also written to a file. -/
  logDir : Option String := none
  /-- Why the run ended early, if it did. -/
  failure : Option Failure := none

/-- The status that the program exits with. -/
def Run.exitCode (r : Run) : Nat :=
  match r.failure with
  | some f => f.exitCode
  | none => 0

/-- The first line of every log. -/
def startingLine : LogLine :=
  .info s!"AMR Decoder v{version} starting..."

/-- The line about a loaded capture. -/
def loadedLine (samples : Nat) (c : CaptureConfig) : LogLine :=
  let seconds := (Replay.seconds c.bitRate samples).tenths
  .info s!"Loaded {samples} samples from {c.path} ({seconds} s at {c.bitRate.toNat} Hz)"

/-- The lines of the log that a configuration asks for. -/
def shownLines (c : LoggingConfig) (lines : List LogLine) : List LogLine :=
  match Level.ofName? c.level with
  | some threshold => lines.filter fun l => threshold.shownFrom l.level
  | none => []

/-- The directory for log files, if the configuration asks for them. -/
def logDir? (c : LoggingConfig) : Option String :=
  if c.logDir.isEmpty then none else some c.logDir

/-- The lines of the log before a replay. -/
def openingLines (c : Config) (samples : Nat) : List LogLine :=
  let disabled : List LogLine :=
    if c.receiver.startEnabled then []
    else [{ level := .warn, text := "Receiver starts disabled; no records will be decoded" }]
  [startingLine, loadedLine samples c.capture] ++ disabled ++ [.info "Press Ctrl+C to exit"]

/-- The receiver of a configuration, with the program as its listener. -/
def receiver (c : ReceiverConfig) : Receiver MonotonicClock Unit :=
  ((Receiver.ofCapacity c.ringCapacity {}).setEnabled c.startEnabled).register ()

/-- The session that replays the samples of a capture. Nobody asks it to stop. -/
def session (c : Config) (samples : List Bool) : Replay.Session MonotonicClock :=
  (Replay.Session.run (fun _ => false) c.capture.bitRate c.dispatch { receiver := receiver c.receiver }
    samples).2

/-- Replays the samples of a capture. -/
def replay (c : Config) (samples : List Bool) : Run :=
  let session := session c samples
  { deliveries := session.deliveries.reverse
    log := shownLines c.logging (openingLines c samples.length ++ session.log.reverse)
    logDir := logDir? c.logging }

/-- Runs the program with the configuration at `configPath`. Without its log file it says nothing. -/
def run (files : Files) (configPath : String) : Run :=
  match Config.load (files.content configPath) with
  | .error e =>
    { failure := some (.input s!"Failed to load configuration from {configPath}" e.error) }
  | .ok c =>
    if !(logDir? c.logging).all files.takesLog then
      { failure := some .logFile }
    else
      match readText (files.content c.capture.path) with
      | .error e =>
        { log := shownLines c.logging [startingLine]
          logDir := logDir? c.logging
          failure := some (.input s!"Failed to read capture {c.capture.path}" (.file e)) }
      | .ok text => replay c (Line.parseSamples text)

end MeterRadio.Program
