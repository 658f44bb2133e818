import MeterRadio.Line.Manchester
import MeterRadio.Line.Preamble

/-!
# What a line has said

A line has no memory limit when it is looked at from outside: every sample that ever came is a part
of its history. The samples of one symbol alignment end with every second sample, so the data bits
*in phase* with the latest sample are the ones that end with it, two samples before it, four samples
before it and so on. Before its first sample a line has been low forever, which makes all its bits
zero.

`messageEnding?` tells which message ends with the latest sample by looking at this history alone.
-/

namespace MeterRadio

/-- The bits that a message of a kind starts with. -/
def Kind.preambleBits : Kind → List Bool
  | .idm | .idm18 => Bytes.bits (beBytes 4 idmPreamble.toNat)
  | .scmPlus => Bytes.bits (beBytes 2 scmPlusSync.toNat)
  | .scm => (Bytes.bits (beBytes 3 scmPreamble.toNat)).take 21

namespace Line

/-- The data bit that ends with sample `i`. -/
def bitAt (samples : List Bool) : (i : Nat) → Bool
  | 0 => dataBit false (samples.getD 0 false)
  | i + 1 => dataBit (samples.getD i false) (samples.getD (i + 1) false)

/-- The bit that came `age` bits before the latest one in phase with the latest sample. -/
def bitOfAge (samples : List Bool) (age : Nat) : Bool :=
  decide (2 * age < samples.length) && bitAt samples (samples.length - 1 - 2 * age)

/-- The latest `n` bits in phase with the latest sample, the oldest first. -/
def lastBits (samples : List Bool) (n : Nat) : List Bool :=
  (List.range n).map fun i => bitOfAge samples (n - 1 - i)

/-- Whether the bits of a whole message start with the preamble of its kind. -/
def Starts (kind : Kind) (samples : List Bool) : Prop :=
  kind.preambleBits <+: lastBits samples (8 * kind.rawSize)

instance (kind : Kind) (samples : List Bool) : Decidable (Starts kind samples) :=
  inferInstanceAs (Decidable (_ <+: _))

/-- Whether a message of another kind is found where one of the given kind could be. -/
def Preempted (kind : Kind) (samples : List Bool) : Prop :=
  match kind with
  | .idm | .idm18 => False
  | .scmPlus => Starts .idm samples
  | .scm => Starts .idm samples ∨ Starts .scmPlus samples

/-- The kind of the message that ends with the latest sample. -/
def messageEnding? (samples : List Bool) : Option Kind :=
  if Starts .idm samples then some .idm
  else if Starts .scmPlus samples then some .scmPlus
  else if Starts .scm samples then some .scm
  else none

end Line

end MeterRadio
