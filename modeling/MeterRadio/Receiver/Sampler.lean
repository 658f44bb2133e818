import MeterRadio.Frame.Header
import MeterRadio.Frame.Memory
import MeterRadio.Frame.Ring
import MeterRadio.Line.Detector
import MeterRadio.Receiver.Clock

/-!
# The sampling side of a receiver

A sampler takes one line sample at a time. Whenever a message ends with a sample, the sampler reads
its clock and pushes one frame into the ring, a header and the captured bytes; if the ring has no
room, the frame is lost and the ring counts it. While it is disabled, a sampler does nothing at
all, and goes on from where it was once it is enabled again.

All frames are put together in the same memory, behind a shorter frame it still holds the end of a
longer one. What is pushed is the front of the memory, as far as the frame goes.
-/

namespace MeterRadio

open Line

/-- The frame of a message captured at time `now`. -/
def Line.Capture.frame (c : Capture) (now : UInt32) : Bytes :=
  (FrameHeader.ofKind c.kind now c.bitOffset).toBytes ++ c.raw

/-- Memory with room for the longest frame. -/
abbrev FrameBuffer := Memory (FrameHeader.size + maxRawSize + 1)

/-- Puts the frame of a message together in memory, first the header and then the captured bytes. -/
def Line.Capture.assemble (c : Capture) (now : UInt32) (buffer : FrameBuffer) : FrameBuffer :=
  (buffer.put 0 (FrameHeader.ofKind c.kind now c.bitOffset).toBytes).put FrameHeader.size c.raw

/-- The state of the sampling side. -/
structure Sampler (C : Type) where
  /-- Finds messages among the samples. -/
  detector : Detector := Detector.start
  /-- Stamps the captures. -/
  clock : C
  /-- Whether samples are taken. -/
  enabled : Bool := true
  /-- Where frames are put together. -/
  buffer : FrameBuffer := Memory.zero

namespace Sampler

variable {C : Type} [Clock C]

/-- Takes one sample and answers with the frame of the message that ends with it, if there is one. -/
def take (s : Sampler C) (sample : Bool) : Option Bytes × Sampler C :=
  let { detector, clock, enabled, buffer } := s
  if enabled then
    match detector.feed sample with
    | (detector, none) => (none, { detector, clock, enabled, buffer })
    | (detector, some capture) =>
      let (now, clock) := Clock.read clock
      let buffer := capture.assemble now buffer
      let frame := buffer.front (FrameHeader.size + capture.raw.length)
      (some frame, { detector, clock, enabled, buffer })
  else (none, { detector, clock, enabled, buffer })

/-- Takes one sample and pushes the frame of the message that ends with it, if there is one. -/
def feed (s : Sampler C) (ring : FrameRing) (sample : Bool) : Sampler C × FrameRing :=
  match s.take sample with
  | (none, s) => (s, ring)
  | (some frame, s) =>
    let (_, ring) := ring.push frame
    (s, ring)

/-- Takes samples in order. -/
def feedAll (s : Sampler C) (ring : FrameRing) : List Bool → Sampler C × FrameRing
  | [] => (s, ring)
  | sample :: samples =>
    let (s, ring) := s.feed ring sample
    s.feedAll ring samples

theorem feedAll_append (s : Sampler C) (ring : FrameRing) (before after : List Bool) :
    s.feedAll ring (before ++ after) =
      (s.feedAll ring before).1.feedAll (s.feedAll ring before).2 after := by
  induction before generalizing s ring with
  | nil => rfl
  | cons sample before ih => exact ih (s.feed ring sample).1 (s.feed ring sample).2

end Sampler

end MeterRadio
