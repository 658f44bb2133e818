import MeterRadio.Frame.Content

/-!
# Verdicts

How a frame counts, said without decoding it: the first fault of a frame decides, and a frame without
fault is accepted. Length and tag are judged before the checksum, so that of two faults the one counts
that lies further out.
-/

namespace MeterRadio

/-- How a frame counts. -/
inductive Verdict
  /-- The frame has an impossible length. -/
  | malformed
  /-- The tag of the frame stands for no kind. -/
  | unknownKind
  /-- The checksum of the message does not hold. -/
  | crcFailure
  /-- The frame holds a valid message. -/
  | accepted
  deriving DecidableEq, Repr

namespace Verdict

/-- What follows the header of a frame, on the boundaries of the sender. -/
def aligned (frame : Bytes) : Bytes :=
  realign (frame.drop FrameHeader.size) (byteAt frame 5).toNat

/-- Judges what follows the header of a frame whose kind is known. -/
def ofPayload (kind : Kind) (frame : Bytes) : Verdict :=
  let len := frame.length - FrameHeader.size
  if maxPayload < len ∨ len < kind.rawSize then malformed
  else if kind.code.valid (covered kind (aligned frame)) then accepted
  else crcFailure

def ofFrame (frame : Bytes) : Verdict :=
  if frame.length < FrameHeader.size then malformed
  else
    match Kind.ofTag? (byteAt frame 0) with
    | none => unknownKind
    | some kind => ofPayload kind frame

end Verdict

end MeterRadio
