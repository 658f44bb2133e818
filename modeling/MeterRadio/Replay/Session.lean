import MeterRadio.Config.Basic
import MeterRadio.Receiver.Basic
import MeterRadio.Replay.Batch

/-!
# Replay with a polling loop

A capture is replayed through a receiver while a loop polls: it drains the ring at a fixed interval, and
at another one, which may be switched off, it reports what has been counted. The sampling side is fed
batch by batch as by a replay alone. The loop acts after every batch with which an interval ends; when
the replay is over, it drains the ring and reports once more.
-/

namespace MeterRadio.Replay

open MonotonicClock (millisecond)

/-- The lines about all frames so far. -/
def statusLines (s : Stats) (dropped : UInt64) : List LogLine :=
  [.info s!"Accepted {s.accepted} records ({s.crcFailures} checksum failures, {s.unknownKind} unknown, {s.malformed} malformed, {dropped} dropped)",
    { level := .debug
      text := s!"Dispatch stats: DispatchStats \x7b accepted: {s.accepted}, crc_failures: {s.crcFailures}, unknown_kind: {s.unknownKind}, malformed: {s.malformed} \x7d" }]

/-- The line about a replay that is over. -/
def finishedLine (fed : Nat) : LogLine :=
  .info s!"Replay finished after {fed} samples"

/-- Whether one of the intervals of `interval` nanoseconds ends with a batch, the last sample of which is
sample number `fed`. -/
def fallsDue (rate : UInt32) (interval fed : Nat) (batch : List Bool) : Bool :=
  due rate (fed - batch.length) / interval < due rate fed / interval

/-- A replay that is going on. -/
structure Session (C : Type) where
  receiver : Receiver C Unit
  /-- Records handed over, the latest first. -/
  deliveries : List (Delivery Unit) := []
  /-- Lines of the log, the latest first. -/
  log : List LogLine := []
  /-- Frames lost for want of room. -/
  dropped : UInt64 := 0

namespace Session

variable {C : Type} [Timer C]

/-- Adds lines to the log. -/
def say (s : Session C) (lines : List LogLine) : Session C :=
  { s with log := lines.reverse ++ s.log }

/-- Reports what has been counted. -/
def report (s : Session C) : Session C :=
  s.say (statusLines s.receiver.dispatcher.stats s.dropped)

/-- Drains the ring and asks for the number of lost frames. -/
def drain (s : Session C) : Session C :=
  let { receiver, deliveries, log, dropped } := s
  let (drained, receiver) := receiver.process
  let (lost, receiver) := receiver.takeOverflow
  { receiver
    deliveries := drained.deliveries.reverse ++ deliveries
    log := drained.log.reverse ++ log
    dropped := dropped + lost.toUInt64 }

/-- Feeds a batch. -/
def feed (rate : UInt32) (start : Nat) (s : Session C) (fed : Nat) (batch : List Bool) : Session C :=
  let { receiver, deliveries, log, dropped } := s
  let { sampler, ring, dispatcher } := receiver
  let (sampler, ring) := feedBatch rate start (sampler, ring) fed batch
  { receiver := { sampler, ring, dispatcher }, deliveries, log, dropped }

/-- Does what falls due with a batch. -/
def poll (rate : UInt32) (c : DispatchConfig) (s : Session C) (fed : Nat) (batch : List Bool) :
    Session C :=
  let drains := fallsDue rate (c.drainInterval * millisecond) fed batch
  let reports := 0 < c.statsInterval && fallsDue rate (c.statsInterval * 1000 * millisecond) fed batch
  let s := if drains then s.drain else s
  if reports then s.report else s

/-- Feeds a batch and lets the loop act. -/
def step (rate : UInt32) (c : DispatchConfig) (start : Nat) (s : Session C) (fed : Nat)
    (batch : List Bool) : Session C :=
  (s.feed rate start fed batch).poll rate c fed batch

/-- Replays a capture at `rate` samples per second and counts the samples fed. -/
def run (stop : Nat → Bool) (rate : UInt32) (c : DispatchConfig) (s : Session C)
    (samples : List Bool) : Nat × Session C :=
  let { receiver, deliveries, log, dropped } := s
  let (start, clock) := Timer.now receiver.sampler.clock
  let s : Session C := { receiver := receiver.setClock clock, deliveries, log, dropped }
  let (fed, s) := feedBatches (step rate c start) stop s 0 0 (batches (batchSize rate) samples)
  (fed, (s.say [finishedLine fed]).drain.report)

end Session

end MeterRadio.Replay
