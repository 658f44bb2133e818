import MeterRadio.Frame.Operation

/-!
# Queues of frames

What a ring is meant to be: a first-in first-out queue of frames and a count of the frames that were
refused for want of room. A queue has no positions and no storage; how much room there is has to be
told to it. `FrameQueue.step` answers the operations of a ring.
-/

namespace MeterRadio

/-- Frames that wait, the oldest first. -/
structure FrameQueue where
  frames : List Bytes
  /-- Frames refused for want of room since this was last asked. -/
  refused : UInt32
  deriving DecidableEq, Repr

namespace FrameQueue

open FrameRing (Op Answer Popped)

/-- No frame is waiting and none was refused. -/
def empty : FrameQueue where
  frames := []
  refused := 0

/-- Appends a frame if it is not empty and has at most `free` bytes. Only a frame that is too long is
counted. -/
def push (q : FrameQueue) (free : Nat) (frame : Bytes) : Except PushError Unit × FrameQueue :=
  if frame = [] then (.error .emptyFrame, q)
  else if frame.length ≤ free then (.ok (), { q with frames := q.frames ++ [frame] })
  else (.error (.full frame.length free), { q with refused := q.refused + 1 })

/-- What a caller gets of a frame: its length if there is no room for any of it, else as many of its
leading bytes as fit into the buffer, in front of what the buffer held behind them. -/
def handOver (frame : Bytes) : (out : Option Bytes) → Popped
  | none => ⟨frame.length, none⟩
  | some [] => ⟨frame.length, some []⟩
  | some (b :: out) =>
    ⟨min (b :: out).length frame.length,
      some (frame.take (b :: out).length ++ (b :: out).drop frame.length)⟩

def pop (q : FrameQueue) (out : Option Bytes) : Popped × FrameQueue :=
  match q.frames with
  | [] => (⟨0, out⟩, q)
  | frame :: frames => (handOver frame out, { q with frames })

/-- Does an operation while frames of up to `free` bytes are taken. -/
def step (q : FrameQueue) (free : Nat) : Op → Answer × FrameQueue
  | .push frame =>
    let (result, q) := q.push free frame
    (.pushed result, q)
  | .peek => (.peeked q.frames.head?, q)
  | .pop out =>
    let (p, q) := q.pop out
    (.popped p, q)
  | .freeSpace => (.room free, q)
  | .isEmpty => (.empty q.frames.isEmpty, q)
  | .takeOverflow => (.overflow q.refused, { q with refused := 0 })

/-- Does operations in order, each with the room there is for it, and collects their answers. -/
def run (q : FrameQueue) : List (Op × Nat) → List Answer × FrameQueue
  | [] => ([], q)
  | (op, free) :: ops =>
    let (answer, q) := q.step free op
    let (answers, q) := q.run ops
    (answer :: answers, q)

end FrameQueue

end MeterRadio
