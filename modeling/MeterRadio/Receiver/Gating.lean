import MeterRadio.Frame.Operation
import MeterRadio.Receiver.Sampler

/-!
# Switching a sampler on and off

A sampler is fed samples and is switched on and off in between. `Sampler.run` makes such calls over a
ring, and `Sampler.offered` are the frames that are pushed on the way, whether the ring takes them or
not.

What should come of a run can be said without a sampler. `Sampler.heard` are the samples that arrive
while it is enabled, `Sampler.captures` the messages that a detector finds among them, and
`Clock.readings` the times that a clock shows if it is read once for each of them.
-/

namespace MeterRadio

/-! ## Readings of a clock -/

namespace Clock

variable {C : Type} [Clock C]

/-- The first `n` readings of a clock. -/
def readings (clock : C) : (n : Nat) → List UInt32
  | 0 => []
  | n + 1 => (read clock).1 :: readings (read clock).2 n

/-- The clock after `n` readings. -/
def after (clock : C) : (n : Nat) → C
  | 0 => clock
  | n + 1 => after (read clock).2 n

theorem after_add (clock : C) (m n : Nat) : after clock (m + n) = after (after clock m) n := by
  induction m generalizing clock with
  | zero => rw [Nat.zero_add, after]
  | succ m ih => rw [Nat.succ_add, after, after, ih]

theorem readings_add (clock : C) (m n : Nat) :
    readings clock (m + n) = readings clock m ++ readings (after clock m) n := by
  induction m generalizing clock with
  | zero => rw [Nat.zero_add, after, readings, List.nil_append]
  | succ m ih => rw [Nat.succ_add, readings, readings, after, ih, List.cons_append]

theorem length_readings (clock : C) (n : Nat) : (readings clock n).length = n := by
  induction n generalizing clock with
  | zero => rfl
  | succ n ih => rw [readings, List.length_cons, ih]

end Clock

/-! ## Calls -/

namespace Sampler

open Line

/-- What can be done to a sampler. -/
inductive Call
  | sample (value : Bool)
  /-- Starts or stops taking samples. -/
  | setEnabled (enabled : Bool)
  deriving DecidableEq, Repr

/-- The samples that arrive while a sampler is enabled; `enabled` says whether it is at the start. -/
def heard (enabled : Bool) : List Call → List Bool
  | [] => []
  | .sample value :: calls => if enabled then value :: heard enabled calls else heard enabled calls
  | .setEnabled enabled :: calls => heard enabled calls

/-- The messages that a new detector finds among the samples that a new sampler hears. -/
def captures (calls : List Call) : List Capture :=
  (Detector.start.scan 0 (heard true calls)).2.map Prod.snd

variable {C : Type} [Clock C]

/-- Makes a call. -/
def call (s : Sampler C) (ring : FrameRing) : Call → Sampler C × FrameRing
  | .sample value => s.feed ring value
  | .setEnabled enabled => ({ s with enabled }, ring)

/-- Makes calls in order. -/
def run (s : Sampler C) (ring : FrameRing) : List Call → Sampler C × FrameRing
  | [] => (s, ring)
  | c :: calls =>
    let (s, ring) := s.call ring c
    s.run ring calls

/-- The frame that a call pushes, if it pushes one. -/
def offeredBy (s : Sampler C) : Call → List Bytes
  | .sample value => (s.take value).1.toList
  | .setEnabled _ => []

/-- The frames that are pushed by calls, in order. -/
def offered (s : Sampler C) (ring : FrameRing) : List Call → List Bytes
  | [] => []
  | c :: calls => s.offeredBy c ++ (s.call ring c).1.offered (s.call ring c).2 calls

end Sampler

end MeterRadio
