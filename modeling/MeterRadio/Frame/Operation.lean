import MeterRadio.Frame.Ring

/-!
# Operations on a ring

`FrameRing.Op` names what can be done to a ring and `FrameRing.step` does it. A ring is used as a
whole or, once it is split, through two halves: the producer adds frames and the consumer takes them
out. The halves share the storage and both indices, so what a call does is decided by its operation
and not by the handle it was made through.
-/

namespace MeterRadio.FrameRing

inductive Op
  | push (frame : Bytes)
  | peek
  /-- Removes the oldest frame, copying it to a buffer if one is given. -/
  | pop (out : Option Bytes)
  /-- Asks for the largest frame that can be appended. -/
  | freeSpace
  /-- Asks whether no frame is waiting. -/
  | isEmpty
  /-- Asks for the number of refused frames and starts to count anew. -/
  | takeOverflow
  deriving DecidableEq, Repr

/-- What an operation answers. -/
inductive Answer
  | pushed (result : Except PushError Unit)
  | peeked (frame : Option Bytes)
  /-- What removing a frame left with the caller. -/
  | popped (p : Popped)
  /-- The largest frame that can be appended. -/
  | room (free : Nat)
  | empty (value : Bool)
  | overflow (count : UInt32)

/-- Does an operation and keeps a record of its accesses to the storage. -/
def stepTraced (r : FrameRing) : Op → Traced (Answer × FrameRing)
  | .push frame => do
    let (result, r) ← r.pushTraced frame
    return (.pushed result, r)
  | .peek => do
    let (frame, r) ← r.peekTraced
    return (.peeked frame, r)
  | .pop out => do
    let (p, r) ← r.popTraced out
    return (.popped p, r)
  | .freeSpace => return (.room r.freeSpace, r)
  | .isEmpty => return (.empty r.isEmpty, r)
  | .takeOverflow =>
    let (count, r) := r.takeOverflow
    return (.overflow count, r)

def step (r : FrameRing) (op : Op) : Answer × FrameRing :=
  (r.stepTraced op).value

/-- Does operations in order and collects their answers. -/
def run (r : FrameRing) : List Op → List Answer × FrameRing
  | [] => ([], r)
  | op :: ops =>
    let (answer, r) := r.step op
    let (answers, r) := r.run ops
    (answer :: answers, r)

theorem run_append (r : FrameRing) (before after : List Op) :
    (r.run (before ++ after)).2 = ((r.run before).2.run after).2 := by
  induction before generalizing r with
  | nil => rfl
  | cons op before ih => exact ih (r.step op).2

/-- Each operation of a run with the free space just before it. -/
def observe (r : FrameRing) : List Op → List (Op × Nat)
  | [] => []
  | op :: ops => (op, r.freeSpace) :: (r.step op).2.observe ops

/-- What a ring is used through. -/
inductive Handle
  | whole
  /-- The half that adds frames. -/
  | producer
  /-- The half that takes frames out. -/
  | consumer
  deriving DecidableEq, Repr

/-- The operations of a handle. -/
def Handle.Offers : Handle → Op → Prop
  | .whole, _ => True
  | .producer, .push _ | .producer, .freeSpace => True
  | .consumer, .peek | .consumer, .pop _ | .consumer, .isEmpty | .consumer, .takeOverflow => True
  | _, _ => False

/-- An operation made through a handle that offers it. -/
structure Call where
  handle : Handle
  op : Op
  offered : handle.Offers op

/-- Makes calls in order and collects their answers. -/
def callAll (r : FrameRing) (calls : List Call) : List Answer × FrameRing :=
  r.run (calls.map Call.op)

end MeterRadio.FrameRing
