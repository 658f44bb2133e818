import MeterRadio.Message.Envelope

/-!
# Standard Consumption Message Plus

A 128-bit message with one meter reading, all fields on byte boundaries:

| bytes | content                              |
|-------|--------------------------------------|
| 0–1   | frame sync, `0x16A3`                 |
| 2     | protocol id                          |
| 3     | endpoint type                        |
| 4–7   | endpoint id                          |
| 8–11  | consumption                          |
| 12–13 | tamper flags                         |
| 14–15 | CCITT checksum over bytes 2–13       |
-/

namespace MeterRadio

/-- The reading of an SCM+ message. -/
structure ScmPlus where
  /-- Frame sync as received. -/
  frameSync : UInt16 := 0
  protocolId : UInt8 := 0
  endpointType : UInt8 := 0
  endpointId : UInt32 := 0
  consumption : UInt32 := 0
  tamper : UInt16 := 0
  /-- The checksum as received. -/
  crc : UInt16 := 0
  deriving DecidableEq, Repr

/-- The word an SCM+ message starts with. -/
def scmPlusSync : UInt16 := 0x16A3

namespace ScmPlus

/-- The message without its checksum; it starts with `scmPlusSync` whatever `frameSync` says. -/
def body (m : ScmPlus) : Bytes :=
  beBytes 2 scmPlusSync.toNat ++ [m.protocolId, m.endpointType] ++ beBytes 4 m.endpointId.toNat
    ++ beBytes 4 m.consumption.toNat ++ beBytes 2 m.tamper.toNat

/-- The raw message; its checksum is computed, whatever `crc` says. -/
def encode (m : ScmPlus) : Bytes :=
  Checksum.ccitt.withChecksum 2 m.body

/-- The fields of a raw message. -/
def fields (raw : Bytes) : ScmPlus where
  frameSync := UInt16.ofNat (beField raw 0 2)
  protocolId := byteAt raw 2
  endpointType := byteAt raw 3
  endpointId := UInt32.ofNat (beField raw 4 4)
  consumption := UInt32.ofNat (beField raw 8 4)
  tamper := UInt16.ofNat (beField raw 12 2)
  crc := UInt16.ofNat (beField raw 14 2)

/-- Reads a raw message whose length and checksum are right. -/
def decode (raw : Bytes) : Except DecodeError ScmPlus := do
  checkEnvelope .scmPlus raw
  return fields raw

@[simp] theorem length_encode (m : ScmPlus) : m.encode.length = Kind.scmPlus.rawSize := by
  simp [encode, body, Kind.rawSize]

end ScmPlus

end MeterRadio
