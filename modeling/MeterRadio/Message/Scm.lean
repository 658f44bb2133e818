import MeterRadio.Message.Envelope

/-!
# Standard Consumption Message

A 96-bit message with one meter reading:

| bits   | content                        |
|--------|--------------------------------|
| 0–20   | preamble, `0xF95300` without its last three bits |
| 21–22  | high 2 bits of the meter's id  |
| 23     | not used                       |
| 24–25  | physical tamper flags          |
| 26–29  | meter type                     |
| 30–31  | encoder tamper flags           |
| 32–55  | consumption                    |
| 56–79  | low 24 bits of the meter's id  |
| 80–95  | BCH checksum over bits 16–79   |
-/

namespace MeterRadio

/-- The reading of a Standard Consumption Message. -/
structure Scm where
  /-- The meter's id, 26 bits on the air. -/
  id : UInt32 := 0
  /-- The meter's type, 4 bits on the air. -/
  ertType : UInt8 := 0
  /-- Physical tamper flags, 2 bits on the air. -/
  tamperPhy : UInt8 := 0
  /-- Encoder tamper flags, 2 bits on the air. -/
  tamperEnc : UInt8 := 0
  /-- Consumption, 24 bits on the air. -/
  consumption : UInt32 := 0
  /-- The checksum as received. -/
  crc : UInt16 := 0
  deriving DecidableEq, Repr

/-- The preamble in the top 21 of 24 bits. -/
def scmPreamble : UInt32 := 0xF95300

/-- The bits of `scmPreamble` that count. -/
def scmPreambleMask : UInt32 := 0xFFFFF8

namespace Scm

/-- The message without its checksum. Each field is cut to the bits it has on the air. -/
def body (m : Scm) : Bytes :=
  [0xF9, 0x53,
    UInt8.ofNat (2 * (m.id.toNat / 0x1000000 % 4)),
    UInt8.ofNat (64 * (m.tamperPhy.toNat % 4) + 4 * (m.ertType.toNat % 16) + m.tamperEnc.toNat % 4)]
  ++ beBytes 3 m.consumption.toNat ++ beBytes 3 m.id.toNat

/-- The raw message; its checksum is computed, whatever `crc` says. -/
def encode (m : Scm) : Bytes :=
  Checksum.bch.withChecksum 2 m.body

/-- The fields of a raw message. -/
def fields (raw : Bytes) : Scm where
  id := UInt32.ofNat ((byteAt raw 2).toNat / 2 % 4 * 0x1000000 + beField raw 7 3)
  ertType := UInt8.ofNat ((byteAt raw 3).toNat / 4 % 16)
  tamperPhy := UInt8.ofNat ((byteAt raw 3).toNat / 64)
  tamperEnc := UInt8.ofNat ((byteAt raw 3).toNat % 4)
  consumption := UInt32.ofNat (beField raw 4 3)
  crc := UInt16.ofNat (beField raw 10 2)

/-- Reads a raw message whose length and checksum are right. -/
def decode (raw : Bytes) : Except DecodeError Scm := do
  checkEnvelope .scm raw
  return fields raw

@[simp] theorem length_encode (m : Scm) : m.encode.length = Kind.scm.rawSize := by
  simp [encode, body, Kind.rawSize]

end Scm

end MeterRadio
