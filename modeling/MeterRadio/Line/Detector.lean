import MeterRadio.Line.Manchester
import MeterRadio.Line.Window

/-!
# Finding messages among line samples

Nothing on the line says which of two consecutive samples starts a Manchester symbol. A detector
therefore decodes both alignments at once: it reads every sample as the second half of a symbol
whose first half was the sample before, and gives the resulting bits in turn to two windows. One of
the two sees the data bits of the sender, the other one sees bits of no meaning.
-/

namespace MeterRadio.Line

/-- The decoding state of both symbol alignments. -/
structure Detector where
  /-- The window whose turn it is. -/
  current : Window
  /-- The window of the other alignment. -/
  other : Window
  /-- The latest sample. -/
  previous : Bool

namespace Detector

/-- A detector on a line that has been low forever. -/
def start : Detector where
  current := Window.empty
  other := Window.empty
  previous := false

/-- Takes one sample and reports the message that ends with it, if there is one. -/
def feed (d : Detector) (sample : Bool) : Detector × Option Capture :=
  let { current, other, previous } := d
  let (current, capture) := current.feed (dataBit previous sample)
  ({ current := other, other := current, previous := sample }, capture)

/-- Forgets everything. -/
def reset (_ : Detector) : Detector :=
  start

/-- Takes samples in order, whatever is found. -/
def feedAll (d : Detector) : List Bool → Detector
  | [] => d
  | sample :: samples => (d.feed sample).1.feedAll samples

/-- Takes samples in order, starting with number `index`, and reports each message with the number
of the sample it ends with. -/
def scan (d : Detector) (index : Nat) : List Bool → Detector × List (Nat × Capture)
  | [] => (d, [])
  | sample :: samples =>
    let (d, capture) := d.feed sample
    let (d, found) := d.scan (index + 1) samples
    (d, (capture.map fun c => (index, c)).toList ++ found)

/-- The messages found among samples, the first of which has number `index`: the number of the sample
that each one ends with, its kind and its bytes. -/
def messages (d : Detector) (index : Nat) (samples : List Bool) : List (Nat × Kind × Bytes) :=
  (d.scan index samples).2.map fun (i, c) => (i, c.kind, c.message)

end Detector

end MeterRadio.Line
