import MeterRadio.Receiver.Run

/-!
# The journal of a run

What a run of calls comes to, written down from outside: which messages were found, which of their
frames the ring took and which it refused, which frames were handled by a poll, and what the listeners
got. A receiver itself keeps counts only.

Every entry of the journal is an observation before one call (`foundBy`, `takenBy`, `refusedBy`,
`handledBy`), and `collect` gathers the observations of a run in order.
-/

namespace MeterRadio

open Line (Capture)

/-- A message and the time at which it was found. -/
structure Stamped where
  capture : Capture
  /-- Time of capture in milliseconds. -/
  time : UInt32
  deriving DecidableEq, Repr

/-- The frame that a sampler makes of a message. -/
def Stamped.frame (s : Stamped) : Bytes :=
  s.capture.frame s.time

namespace Receiver

variable {C α β : Type} [Clock C]

/-! ### One call -/

/-- The message that a call completes, if there is one. -/
def foundBy (r : Receiver C α) : Call C α → List Stamped
  | .sample value =>
    if r.sampler.enabled then
      (r.sampler.detector.feed value).2.toList.map fun capture =>
        { capture, time := (Clock.read r.sampler.clock).1 }
    else []
  | _ => []

/-- Whether the ring takes the frame of a message. -/
def takes (r : Receiver C α) (s : Stamped) : Bool :=
  (r.ring.push s.frame).1.isOk

/-- The message that a call completes, if the ring takes its frame. -/
def takenBy (r : Receiver C α) (call : Call C α) : List Stamped :=
  (r.foundBy call).filter r.takes

/-- The message that a call completes, if the ring refuses its frame. -/
def refusedBy (r : Receiver C α) (call : Call C α) : List Stamped :=
  (r.foundBy call).filter fun s => !r.takes s

/-- The frames that a call takes out of the ring and decodes. -/
def handledBy (r : Receiver C α) : Call C α → List Bytes
  | .process => r.ring.drain.1
  | _ => []

/-- The records that an answer reports as handed over. -/
def Reply.deliveries : Reply α → List (Delivery α)
  | .drained d => d.deliveries
  | _ => []

/-- The lost frames that an answer reports. -/
def Reply.lost : Reply α → Nat
  | .overflow count => count.toNat
  | _ => 0

/-! ### Runs -/

/-- What is observed before each call of a run, in order. -/
def collect (observe : Receiver C α → Call C α → List β) (r : Receiver C α) : List (Call C α) → List β
  | [] => []
  | call :: calls => observe r call ++ (r.call call).2.collect observe calls

/-- The messages that are found during a run, whatever becomes of them. -/
def found (r : Receiver C α) (calls : List (Call C α)) : List Stamped :=
  r.collect foundBy calls

/-- The messages whose frames the ring takes during a run. -/
def taken (r : Receiver C α) (calls : List (Call C α)) : List Stamped :=
  r.collect takenBy calls

/-- The messages whose frames the ring refuses during a run. -/
def refused (r : Receiver C α) (calls : List (Call C α)) : List Stamped :=
  r.collect refusedBy calls

/-- The frames that are taken out of the ring and decoded during a run. -/
def handled (r : Receiver C α) (calls : List (Call C α)) : List Bytes :=
  r.collect handledBy calls

/-- The records that listeners get during a run. -/
def deliveries (r : Receiver C α) (calls : List (Call C α)) : List (Delivery α) :=
  (r.run calls).1.flatMap Reply.deliveries

/-- The lost frames that are reported during a run. -/
def reportedLost (r : Receiver C α) (calls : List (Call C α)) : Nat :=
  (r.run calls).1.foldr (fun reply total => reply.lost + total) 0

/-- The number of lost frames never runs over: wherever the calls do not ask for it, fewer than 2³²
frames are refused. -/
def CountFits (r : Receiver C α) (calls : List (Call C α)) : Prop :=
  ∀ before stretch after, calls = before ++ stretch ++ after → Call.takeOverflow ∉ stretch →
    ((r.run before).2.refused stretch).length < UInt32.size

/-- The calls that take samples in batches and poll after each batch. -/
def polled (batches : List (List Bool)) : List (Call C α) :=
  batches.flatMap fun batch => batch.map Call.sample ++ [Call.process]

end Receiver

end MeterRadio
