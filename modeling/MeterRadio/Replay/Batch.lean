import MeterRadio.Decimal.Binary64
import MeterRadio.Receiver.Sampler

/-!
# Replaying a capture

A recorded capture is fed to a sampler in batches of one millisecond each. Before each batch a stop
flag is looked at, and once it is set no more samples are fed. After each batch the replay sleeps until
the recording has got as far.
-/

namespace MeterRadio.Replay

/-- Length of a batch in milliseconds. -/
def batchPeriod : Nat := 1

/-- Samples of a batch at `rate` samples per second, at least one. -/
def batchSize (rate : UInt32) : Nat :=
  max (rate.toNat * batchPeriod / 1000) 1

/-- Cuts samples into batches of `size` samples, or of one if `size` is 0. The last batch may be
shorter. -/
def batches (size : Nat) (samples : List Bool) : List (List Bool) :=
  match samples with
  | [] => []
  | s :: rest => (s :: rest.take (size - 1)) :: batches size (rest.drop (size - 1))
termination_by samples.length
decreasing_by
  simp only [List.length_cons, List.length_drop]
  omega

/-- Seconds that `n` samples at `rate` samples per second last. -/
def seconds (rate : UInt32) (n : Nat) : Decimal.Binary64 :=
  Decimal.Binary64.ofFraction false ⟨n, rate.toNat⟩

/-- Nanoseconds after which a recording at `rate` samples per second has got to the end of its first `n`
samples, the whole number nearest to what the seconds say. No capture is so long that these are
infinite. -/
def due (rate : UInt32) (n : Nat) : Nat :=
  match seconds rate n with
  | .finite _ m q =>
    let nanoseconds := (Decimal.Binary64.value m q).scale 10 9
    Decimal.roundDiv nanoseconds.num nanoseconds.den
  | _ => 0

/-- Feeds batches until the stop flag, whose `k`-th value is `stop k`, shows `true` before one of
them, and counts the samples fed. How a batch is fed is up to `feed`, which is told the count with this
batch. The flag has been looked at `k` times before. -/
def feedBatches {S : Type} (feed : S → (fed : Nat) → List Bool → S) (stop : Nat → Bool) (s : S)
    (k fed : Nat) : List (List Bool) → Nat × S
  | [] => (fed, s)
  | batch :: rest =>
    if stop k then (fed, s)
    else
      let fed := fed + batch.length
      feedBatches feed stop (feed s fed batch) (k + 1) fed rest

variable {C : Type} [Timer C]

/-- Feeds a batch and sleeps until the recording, which was started at the moment `start`, has got as
far. The moment is not counted from the last sleep, so what one sleep takes too long does not add up. -/
def feedBatch (rate : UInt32) (start : Nat) (s : Sampler C × FrameRing) (fed : Nat)
    (batch : List Bool) : Sampler C × FrameRing :=
  let (sampler, ring) := s
  let (sampler, ring) := sampler.feedAll ring batch
  ({ sampler with clock := Timer.sleepUntil (start + due rate fed) sampler.clock }, ring)

/-- Feeds a capture recorded at `rate` samples per second and counts the samples fed. -/
def run (stop : Nat → Bool) (rate : UInt32) (s : Sampler C) (ring : FrameRing)
    (samples : List Bool) : Nat × Sampler C × FrameRing :=
  let (start, clock) := Timer.now s.clock
  feedBatches (feedBatch rate start) stop ({ s with clock }, ring) 0 0
    (batches (batchSize rate) samples)

/-- A stop flag that shows `true` for the first time when it has been looked at `k` times before. -/
def StopsAt (stop : Nat → Bool) (k : Nat) : Prop :=
  stop k = true ∧ ∀ j < k, stop j = false

/-- Of `total` samples at `rate` samples per second `fed` get through before the stop flag shows
`true`. -/
structure FedCount (stop : Nat → Bool) (rate : UInt32) (total fed : Nat) : Prop where
  /-- Before the flag is looked at for the last time, one batch is fed for each time it shows
  `false`. -/
  stopped : ∀ k, StopsAt stop k → fed = min total (k * max 1 (rate.toNat / 1000))
  never : (∀ k, stop k = false) → fed = total

end MeterRadio.Replay
