import MeterRadio.Receiver.Dispatcher
import MeterRadio.Receiver.Sampler

/-!
# Receivers

A receiver is a sampler and a dispatcher with a ring of frames between them. The two sides share
nothing but the ring, so it makes no difference whether they are used as one or each on its own.
-/

namespace MeterRadio

/-- A receiver with clocks of type `C` and listeners named by `α`. -/
structure Receiver (C α : Type) where
  /-- The sampling side. -/
  sampler : Sampler C
  /-- Frames that wait to be decoded. -/
  ring : FrameRing
  /-- The polling side. -/
  dispatcher : Dispatcher α := {}

namespace Receiver

/-- Ring storage of a receiver for which nothing else is asked. -/
def defaultCapacity : Nat := 512

variable {C α : Type} [Clock C]

/-- An enabled receiver without a listener. -/
def ofCapacity (capacity : Nat) (clock : C) : Receiver C α where
  sampler := { clock }
  ring := FrameRing.ofCapacity capacity

/-- Takes samples in order. -/
def feedAll (r : Receiver C α) (samples : List Bool) : Receiver C α :=
  let { sampler, ring, dispatcher } := r
  let (sampler, ring) := sampler.feedAll ring samples
  { sampler, ring, dispatcher }

/-- Decodes all waiting frames. -/
def process (r : Receiver C α) : Drained α × Receiver C α :=
  let { sampler, ring, dispatcher } := r
  let (drained, dispatcher, ring) := dispatcher.process ring
  (drained, { sampler, ring, dispatcher })

/-- Starts or stops taking samples. -/
def setEnabled (r : Receiver C α) (enabled : Bool) : Receiver C α :=
  { r with sampler.enabled := enabled }

/-- Replaces the clock. -/
def setClock (r : Receiver C α) (clock : C) : Receiver C α :=
  { r with sampler.clock := clock }

/-- Sends the records from now on to `listener` alone. -/
def register (r : Receiver C α) (listener : α) : Receiver C α :=
  { r with dispatcher := r.dispatcher.register listener }

/-- Sends the records to nobody from now on. -/
def clear (r : Receiver C α) : Receiver C α :=
  { r with dispatcher := r.dispatcher.clear }

/-- The number of frames lost for want of room since the last call. -/
def takeOverflow (r : Receiver C α) : UInt32 × Receiver C α :=
  let (lost, ring) := r.ring.takeOverflow
  (lost, { r with ring })

end Receiver

end MeterRadio
