import MeterRadio.Frame.Ring
import MeterRadio.Log

/-!
# Configuration

A configuration has five sections. `Config.validate` checks the bounds that the rest of the program
relies on: a valid configuration has a ring that can be used, a positive sample rate, a positive
polling interval and a known log level.
-/

namespace MeterRadio

structure ReceiverConfig where
  /-- Bytes of ring storage. -/
  ringCapacity : Nat := 512
  /-- Whether samples are taken from the start. -/
  startEnabled : Bool := true
  deriving DecidableEq, Repr

structure DispatchConfig where
  /-- Milliseconds between two polls. -/
  drainInterval : Nat := 10
  /-- Seconds between two reports of statistics; 0 turns them off. -/
  statsInterval : Nat := 10
  deriving DecidableEq, Repr

structure CaptureConfig where
  path : String := "capture.txt"
  /-- Samples per second. -/
  bitRate : UInt32 := 32768
  deriving DecidableEq, Repr

structure OutputConfig where
  format : String := "jsonl"
  deriving DecidableEq, Repr

structure LoggingConfig where
  /-- The least severe level that is shown. -/
  level : String := "info"
  /-- Directory for log files; none are written if it is empty. -/
  logDir : String := ""
  deriving DecidableEq, Repr

structure Config where
  receiver : ReceiverConfig := {}
  dispatch : DispatchConfig := {}
  capture : CaptureConfig := {}
  output : OutputConfig := {}
  logging : LoggingConfig := {}
  deriving DecidableEq, Repr

/-- A bound that a configuration does not keep. -/
inductive Violation
  /-- The ring is too small for the longest frame or too large for 16-bit lengths. -/
  | ringCapacity
  /-- The polling interval is zero or above a second. -/
  | drainInterval
  /-- The interval of statistics is above an hour. -/
  | statsInterval
  | capturePath
  /-- The sample rate is zero or above a million. -/
  | bitRate
  | outputFormat
  | logLevel
  deriving DecidableEq, Repr

def Violation.message : Violation → String
  | ringCapacity => "ring_capacity must be between 128 and 65535"
  | drainInterval => "drain_interval_ms must be between 1 and 1000"
  | statsInterval => "stats_interval_s must be at most 3600"
  | capturePath => "capture path cannot be empty"
  | bitRate => "bit_rate_hz must be between 1 and 1000000"
  | outputFormat => "output format must be \"jsonl\""
  | logLevel => "logging level must be one of trace, debug, info, warn, error"

namespace Config

/-- Checks all bounds in a fixed order. -/
def validate (c : Config) : Except Violation Unit :=
  if c.receiver.ringCapacity < 128 ∨ 65535 < c.receiver.ringCapacity then .error .ringCapacity
  else if c.dispatch.drainInterval = 0 ∨ 1000 < c.dispatch.drainInterval then
    .error .drainInterval
  else if 3600 < c.dispatch.statsInterval then .error .statsInterval
  else if c.capture.path.isEmpty then .error .capturePath
  else if c.capture.bitRate = 0 ∨ 1000000 < c.capture.bitRate then .error .bitRate
  else if c.output.format ≠ "jsonl" then .error .outputFormat
  else if (Level.ofName? c.logging.level).isNone then .error .logLevel
  else .ok ()

/-- The bounds that a valid configuration keeps. -/
structure InBounds (c : Config) : Prop where
  ringCapacity : 128 ≤ c.receiver.ringCapacity ∧ c.receiver.ringCapacity ≤ 65535
  drainInterval : 0 < c.dispatch.drainInterval ∧ c.dispatch.drainInterval ≤ 1000
  statsInterval : c.dispatch.statsInterval ≤ 3600
  path : c.capture.path ≠ ""
  bitRate : 0 < c.capture.bitRate.toNat ∧ c.capture.bitRate.toNat ≤ 1000000
  format : c.output.format = "jsonl"
  level : ∃ l : Level, c.logging.level = l.name

theorem validate_default : validate {} = .ok () := rfl

/-- The ring of a valid configuration can be used. -/
theorem usable_of_validate {c : Config} (h : c.validate = .ok ()) :
    FrameRing.Usable c.receiver.ringCapacity := by
  unfold validate at h
  split at h
  · cases h
  · rename_i hcap
    simp only [FrameRing.Usable, FrameRing.prefixSize, FrameRing.maxStorage]
    omega

end Config

end MeterRadio
