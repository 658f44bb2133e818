import Mathlib.Data.List.Forall2
import MeterRadio.Receiver.Run

/-!
# Samples and the time between them

A sampler is fed samples, and between them time passes on its clock. `Receiver.Feeds` says of calls that
they do this and nothing else. The times at which messages are found are written into their frames and
show nowhere else: `Sampler.SameButTimes` says so of two samplers, each with the ring that it has pushed
into.
-/

namespace MeterRadio

open Line (Capture)

variable {C C' : Type}

/-- Calls that let a receiver take these samples, in order and each of them once, and otherwise do
nothing but set its clock. -/
structure Receiver.Feeds {α : Type} (calls : List (Call C α)) (samples : List Bool) : Prop where
  only : ∀ c ∈ calls, (∃ value, c = .sample value) ∨ ∃ clock, c = .setClock clock
  samples_eq : calls.flatMap Call.samples = samples

/-- Two frames with the same bytes but for the time, which is in bytes 1 to 4. -/
structure SameButTime (f g : Bytes) : Prop where
  length : f.length = g.length
  bytes : ∀ i, i < 1 ∨ 5 ≤ i → f[i]? = g[i]?

namespace Sampler

/-- The messages that a sampler finds among samples. -/
def found (s : Sampler C) (samples : List Bool) : List Capture :=
  if s.enabled then (s.detector.scan 0 samples).2.map Prod.snd else []

end Sampler

end MeterRadio
