import MeterRadio.Bits.Packed
import MeterRadio.Message.Kind

/-!
# Length and checksum of a raw message

Before any field of a message is looked at, the message has to be long enough and its checksum has
to hold, so that a damaged message never yields a record. `checkEnvelope` is that test. Bytes after
the end of the message are ignored.
-/

namespace MeterRadio

/-- Why raw bytes are not a message. -/
inductive DecodeError
  /-- There are fewer bytes than the format needs. -/
  | truncated (kind : Kind) (expected actual : Nat)
  /-- The checksum register ended on the wrong value. -/
  | checksum (kind : Kind) (residual : UInt16)
  /-- A packed field lies outside the message. -/
  | range (e : RangeError)
  deriving DecidableEq, Repr

/-- Four upper-case hexadecimal digits. -/
def hexWord (w : UInt16) : String :=
  String.ofList ((hexChars (beBytes 2 w.toNat)).map Char.toUpper)

/-- The wording of a decoding error. -/
def DecodeError.message : DecodeError → String
  | truncated kind expected actual =>
    s!"{kind.name} payload too short: expected {expected} bytes, got {actual}"
  | checksum kind residual => s!"{kind.name} checksum mismatch (residual 0x{hexWord residual})"
  | range e => e.message

/-- The bytes that the checksum of a message protects, the checksum itself included. -/
def covered (kind : Kind) (raw : Bytes) : Bytes :=
  slice raw kind.firstCovered (kind.rawSize - kind.firstCovered)

/-- Checks that `raw` starts with enough bytes for a message whose checksum holds. -/
def checkEnvelope (kind : Kind) (raw : Bytes) : Except DecodeError Unit :=
  if raw.length < kind.rawSize then
    .error (.truncated kind kind.rawSize raw.length)
  else
    let residual := kind.code.register (covered kind raw)
    if residual = kind.code.residual then .ok () else .error (.checksum kind residual)

/-- The big-endian number in `len` bytes at `pos`. -/
def beField (raw : Bytes) (pos len : Nat) : Nat :=
  beNat (slice raw pos len)

/-- The `n` bytes at `pos`. -/
def byteFields (raw : Bytes) (pos n : Nat) : Vector UInt8 n :=
  Vector.ofFn fun i => byteAt raw (pos + i)

end MeterRadio
