import MeterRadio.Frame.Ring
import MeterRadio.Frame.Unpack
import MeterRadio.Log

/-!
# The polling side of a receiver

A dispatcher empties the ring, decodes every frame and hands the records to a listener, if there is
one. Each frame is looked at in the ring, decoded in the dispatcher's working memory, and then taken
out. Frames are independent of each other: `Outcome.ofFrame` looks at the bytes of one frame only, and
what the working memory holds does not matter. Every frame counts for exactly one of four numbers, with
or without a listener.
-/

namespace MeterRadio

/-- What became of a frame. -/
inductive Outcome
  /-- The frame held a valid message. -/
  | accepted (content : FrameContent)
  | dropped (reason : FrameError)
  deriving DecidableEq, Repr

namespace Outcome

/-- What became of a frame that decodes to `result`. -/
def ofResult : Except FrameError FrameContent → Outcome
  | .ok content => accepted content
  | .error reason => dropped reason

/-- Decodes a frame. -/
def ofFrame (frame : Bytes) : Outcome :=
  match FrameContent.ofBytes frame with
  | .ok content => accepted content
  | .error reason => dropped reason

/-- The line of the log about a frame. -/
def logLine : Outcome → LogLine
  | accepted c =>
    { level := .trace
      text := s!"{c.record.kind.name} accepted (captured at {c.header.timestamp.toNat} ms, bit offset {c.header.bitOffset.toNat})" }
  | dropped reason => { level := .debug, text := s!"Dropping frame: {reason.text}" }

end Outcome

/-- How many frames had which outcome. The numbers are machine words, which start anew at 0 when they run
over. -/
structure Stats where
  /-- Valid messages. -/
  accepted : UInt64 := 0
  /-- Messages whose checksum did not hold. -/
  crcFailures : UInt64 := 0
  /-- Frames whose tag stands for no kind. -/
  unknownKind : UInt64 := 0
  /-- Frames of an impossible length. -/
  malformed : UInt64 := 0
  deriving DecidableEq, Repr

namespace Stats

def count (s : Stats) : Outcome → Stats
  | .accepted _ => { s with accepted := s.accepted + 1 }
  | .dropped (.message (.checksum ..)) => { s with crcFailures := s.crcFailures + 1 }
  | .dropped (.unknownKind _) => { s with unknownKind := s.unknownKind + 1 }
  | .dropped _ => { s with malformed := s.malformed + 1 }

end Stats

/-- A record handed to a listener. -/
structure Delivery (α : Type) where
  /-- Who gets it. -/
  listener : α
  record : Record
  kind : Kind
  /-- The bytes of the message. -/
  raw : Bytes
  deriving DecidableEq, Repr

/-- What a listener gets to see of a frame. -/
def Outcome.delivery? {α : Type} (listener : α) : Outcome → Option (Delivery α)
  | accepted c => some { listener, record := c.record, kind := c.record.kind, raw := c.raw }
  | dropped _ => none

/-- The state of the polling side, with listeners named by `α`. -/
structure Dispatcher (α : Type) where
  /-- Who gets the records. -/
  listener : Option α := none
  /-- Outcomes so far. -/
  stats : Stats := {}
  /-- Where captures are realigned. -/
  scratch : Scratch := Memory.zero

/-- What happened while a ring was emptied. -/
structure Drained (α : Type) where
  /-- Records handed over, in order. -/
  deliveries : List (Delivery α)
  /-- Lines of the log, in order. -/
  log : List LogLine

namespace Drained

variable {α : Type}

def empty : Drained α where
  deliveries := []
  log := []

/-- An outcome before everything else: a line of the log, and a record if there is one and somebody to
get it. -/
def cons (listener : Option α) (outcome : Outcome) (rest : Drained α) : Drained α where
  deliveries := (listener.bind fun listener => outcome.delivery? listener).toList ++ rest.deliveries
  log := outcome.logLine :: rest.log

end Drained

namespace Dispatcher

variable {α : Type}

/-- Sends the records from now on to `listener` alone. -/
def register (d : Dispatcher α) (listener : α) : Dispatcher α :=
  { d with listener := some listener }

/-- Sends the records to nobody from now on. -/
def clear (d : Dispatcher α) : Dispatcher α :=
  { d with listener := none }

/-- Decodes a frame in working memory and counts it. -/
def handle (d : Dispatcher α) (frame : Bytes) : Outcome × Dispatcher α :=
  let (result, scratch) := FrameContent.unpack d.scratch frame
  let outcome := Outcome.ofResult result
  (outcome, { d with stats := d.stats.count outcome, scratch })

/-- Handles waiting frames, the oldest first, until none is left, at most `rounds` of them. -/
def processRounds (d : Dispatcher α) (ring : FrameRing) :
    (rounds : Nat) → Drained α × Dispatcher α × FrameRing
  | 0 => (Drained.empty, d, ring)
  | rounds + 1 =>
    match ring.peek with
    | (none, ring) => (Drained.empty, d, ring)
    | (some frame, ring) =>
      let (outcome, d) := d.handle frame
      let (_, ring) := ring.pop none
      let (rest, d', ring) := d.processRounds ring rounds
      (rest.cons d.listener outcome, d', ring)

/-- Empties the ring, the oldest frame first. There are fewer frames than the ring has bytes. -/
def process (d : Dispatcher α) (ring : FrameRing) : Drained α × Dispatcher α × FrameRing :=
  d.processRounds ring ring.capacity

end Dispatcher

end MeterRadio
