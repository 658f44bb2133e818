import MeterRadio.Bits.Align
import MeterRadio.Bits.Field
import MeterRadio.Line.Preamble

/-!
# A window on the latest bits

A window keeps the latest 736 bits of a stream, as many as the longest message has, in a circular
buffer. Every bit is written twice, one window length apart:

```text
0                    span                   2 * span
|  first copy         |  second copy         | spare byte |
        ^ cursor              ^ cursor + span
```

so that the latest `span` bits always lie in one piece, ending just after the second copy of the
newest bit. A message that ends with the newest bit can be cut out there without unwrapping; the
spare byte is for messages that end at the very end of the second copy.

A message is cut out with the bits around it that share its first and last byte. They are what the
buffer happens to hold, and readers of a capture shift them out.
-/

namespace MeterRadio.Line

/-- A message found in a stream of bits. -/
structure Capture where
  /-- The format whose preamble was found. -/
  kind : Kind
  /-- Where the message starts within the first byte of `raw`. -/
  bitOffset : UInt8
  /-- The bytes that hold the message, one more than the message has. -/
  raw : Bytes
  deriving DecidableEq, Repr

/-- The bytes of the message on the boundaries of the sender. -/
def Capture.message (c : Capture) : Bytes :=
  (realign c.raw c.bitOffset.toNat).take c.kind.rawSize

/-- The latest bits of a stream. -/
structure Window where
  /-- Both copies and the spare byte. -/
  bytes : Array UInt8
  /-- Where the next bit goes in the first copy. -/
  cursor : Nat

namespace Window

/-- Number of bits in view. -/
def span : Nat := 8 * maxRawSize

/-- A window on a stream that has been silent forever. -/
def empty : Window where
  bytes := Array.replicate (2 * maxRawSize + 1) 0
  cursor := 0

/-- Bit `i` of a buffer set to `v`. -/
def setBit (bytes : Array UInt8) (i : Nat) (v : Bool) : Array UInt8 :=
  bytes.modify (i / 8) fun b => setByteBit b (i % 8) v

/-- Takes the next bit of the stream. -/
def push (w : Window) (v : Bool) : Window where
  bytes := setBit (setBit w.bytes w.cursor v) (w.cursor + span) v
  cursor := (w.cursor + 1) % span

/-- The bytes from `pos` on. -/
def cut (w : Window) (pos len : Nat) : Bytes :=
  (w.bytes.extract pos (pos + len)).toList

/-- The 32 bits from bit `pos` on. -/
def word (w : Window) (pos : Nat) : UInt32 :=
  fieldValue (w.cut (pos / 8) 5) (pos % 8) 32

/-- The kind of message that ends at bit `stop`, by its preamble. -/
def messageAt? (w : Window) (stop : Nat) : Option Kind :=
  searchOrder.find? fun kind => kind.hasPreamble (w.word (stop - 8 * kind.rawSize))

/-- The message that ends at bit `stop`, if there is one. -/
def capture? (w : Window) (stop : Nat) : Option Capture :=
  (w.messageAt? stop).map fun kind =>
    let start := stop - 8 * kind.rawSize
    { kind
      bitOffset := UInt8.ofNat (start % 8)
      raw := w.cut (start / 8) (kind.rawSize + 1) }

/-- Takes the next bit and reports the message that ends with it, if there is one. -/
def feed (w : Window) (v : Bool) : Window × Option Capture :=
  let stop := w.cursor + span + 1
  let w := w.push v
  (w, w.capture? stop)

end Window

end MeterRadio.Line
