import MeterRadio.Message.Kind

/-!
# Frame headers

A captured message waits in the queue behind a header of six bytes: the tag of its kind, the time
of capture in milliseconds (four bytes, least significant first) and the bit at which it starts in
its first byte. The tag is kept as it was found, so that a frame with an unknown tag can be reported
with it.
-/

namespace MeterRadio

/-- What is known about a captured message before it is decoded. -/
structure FrameHeader where
  /-- Tag of the message kind. -/
  tag : UInt8
  /-- Time of capture in milliseconds. -/
  timestamp : UInt32
  /-- Where the message starts within its first byte. -/
  bitOffset : UInt8
  deriving DecidableEq, Repr

namespace FrameHeader

/-- Bytes of a header. -/
def size : Nat := 6

/-- The header of a message of a known kind. -/
def ofKind (kind : Kind) (timestamp : UInt32) (bitOffset : UInt8) : FrameHeader where
  tag := kind.tag
  timestamp
  bitOffset

/-- The kind of the message, if its tag is known. -/
def kind? (h : FrameHeader) : Option Kind :=
  Kind.ofTag? h.tag

/-- The header as it stands in the queue. -/
def toBytes (h : FrameHeader) : Bytes :=
  [h.tag] ++ leBytes 4 h.timestamp.toNat ++ [h.bitOffset]

/-- The header at the start of a frame, unless the frame is too short to have one. -/
def ofBytes? (d : Bytes) : Option FrameHeader :=
  if d.length < size then none
  else some
    { tag := byteAt d 0
      timestamp := UInt32.ofNat (leNat (slice d 1 4))
      bitOffset := byteAt d 5 }

@[simp] theorem length_toBytes (h : FrameHeader) : h.toBytes.length = size := by
  simp [toBytes, size]

end FrameHeader

end MeterRadio
