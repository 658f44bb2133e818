import MeterRadio.Bits.Align
import MeterRadio.Frame.Header
import MeterRadio.Message.Record

/-!
# What a frame holds

A frame is a header and the bytes of a message as they were captured, one byte more than the message
has. `FrameContent.ofBytes` restores the byte boundaries of the sender and decodes the message.
-/

namespace MeterRadio

/-- Why a frame is dropped. -/
inductive FrameError
  /-- The frame has no room for a header, or is longer than any message. -/
  | malformed (len : Nat)
  /-- No message kind has this tag. -/
  | unknownKind (tag : UInt8)
  /-- The bytes after the header are not a message of its kind. -/
  | message (e : DecodeError)
  deriving DecidableEq, Repr

def FrameError.text : FrameError → String
  | malformed len => s!"Malformed frame of {len} bytes"
  | unknownKind tag => s!"Unknown message type tag: {tag.toNat}"
  | message e => e.message

/-- A decoded frame. -/
structure FrameContent where
  /-- The header as it was written at capture. -/
  header : FrameHeader
  record : Record
  /-- The bytes of the message on the boundaries of the sender. -/
  raw : Bytes
  deriving DecidableEq, Repr

/-- Most bytes that a capture can have: the longest message and the byte more. -/
def maxPayload : Nat := maxRawSize + 1

namespace FrameContent

/-- Decodes the payload of a frame whose kind is known. -/
def ofPayload (header : FrameHeader) (kind : Kind) (payload : Bytes) :
    Except FrameError FrameContent := do
  let raw := realign payload header.bitOffset.toNat
  let record ← (Record.decode kind raw).mapError .message
  return { header, record, raw := raw.take kind.rawSize }

/-- Decodes a frame. -/
def ofBytes (frame : Bytes) : Except FrameError FrameContent :=
  match FrameHeader.ofBytes? frame with
  | none => .error (.malformed frame.length)
  | some header =>
    match header.kind? with
    | none => .error (.unknownKind header.tag)
    | some kind =>
      let payload := frame.drop FrameHeader.size
      if maxPayload < payload.length then .error (.malformed frame.length)
      else ofPayload header kind payload

end FrameContent

end MeterRadio
