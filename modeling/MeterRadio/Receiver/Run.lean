import MeterRadio.Frame.Operation
import MeterRadio.Receiver.Basic

/-!
# Using a receiver

`Receiver.Call` names what can be done to a receiver and `Receiver.run` does it. A receiver that was
split leaves its ring within reach of others, who may add frames to it or take some out: a `Use` is a
call or an operation on the ring.
-/

namespace MeterRadio.Receiver

variable {C α : Type} [Clock C]

/-- Takes one sample. -/
def feed (r : Receiver C α) (sample : Bool) : Receiver C α :=
  let { sampler, ring, dispatcher } := r
  let (sampler, ring) := sampler.feed ring sample
  { sampler, ring, dispatcher }

/-- What can be done to a receiver with clocks of type `C` and listeners named by `α`. -/
inductive Call (C α : Type)
  | sample (value : Bool)
  /-- Starts or stops taking samples. -/
  | setEnabled (enabled : Bool)
  /-- Replaces the clock. -/
  | setClock (clock : C)
  /-- Sends the records from now on to a listener. -/
  | register (listener : α)
  /-- Sends the records to nobody from now on. -/
  | clear
  /-- Decodes all waiting frames. -/
  | process
  /-- Asks for the number of lost frames and starts to count anew. -/
  | takeOverflow

/-- The samples of a call. -/
def Call.samples : Call C α → List Bool
  | .sample value => [value]
  | _ => []

/-- What a call answers. -/
inductive Reply (α : Type)
  | done
  /-- What happened while the ring was emptied. -/
  | drained (drained : Drained α)
  /-- The number of lost frames. -/
  | overflow (count : UInt32)

/-- Makes a call. -/
def call (r : Receiver C α) : Call C α → Reply α × Receiver C α
  | .sample value => (.done, r.feed value)
  | .setEnabled enabled => (.done, r.setEnabled enabled)
  | .setClock clock => (.done, r.setClock clock)
  | .register listener => (.done, r.register listener)
  | .clear => (.done, r.clear)
  | .process =>
    let (drained, r) := r.process
    (.drained drained, r)
  | .takeOverflow =>
    let (count, r) := r.takeOverflow
    (.overflow count, r)

/-- Makes calls in order and collects their answers. -/
def run (r : Receiver C α) : List (Call C α) → List (Reply α) × Receiver C α
  | [] => ([], r)
  | call :: calls =>
    let (reply, r) := r.call call
    let (replies, r) := r.run calls
    (reply :: replies, r)

/-- A call of a receiver, or an operation on its ring. -/
inductive Use (C α : Type)
  | call (call : Call C α)
  | ring (op : FrameRing.Op)

/-- The receiver after a use. -/
def use (r : Receiver C α) : Use C α → Receiver C α
  | .call call => (r.call call).2
  | .ring op => { r with ring := (r.ring.step op).2 }

/-- The receiver after any number of uses. -/
def useAll (r : Receiver C α) (uses : List (Use C α)) : Receiver C α :=
  uses.foldl use r

/-- The sample that a use lets a receiver hear, unless it is disabled. -/
def heardOf (r : Receiver C α) : Use C α → List Bool
  | .call (.sample value) => if r.sampler.enabled then [value] else []
  | _ => []

/-- The samples that a receiver hears. -/
def heard (r : Receiver C α) : List (Use C α) → List Bool
  | [] => []
  | u :: uses => r.heardOf u ++ (r.use u).heard uses

end MeterRadio.Receiver
