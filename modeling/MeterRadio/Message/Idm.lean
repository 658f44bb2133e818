import MeterRadio.Message.Envelope

/-!
# Interval Data Message

A 736-bit message with a meter reading and the consumption of the latest intervals. Header and
trailer are common to both layouts:

| bytes | content                                   |
|-------|-------------------------------------------|
| 0–3   | training sequence and sync, `0x555516A3`  |
| 4–7   | packet type, length, Hamming code, application version |
| 8     | meter type, in the low four bits          |
| 9–12  | meter id                                  |
| 13    | interval count                            |
| 14–85 | payload                                   |
| 86–87 | transmit time offset                      |
| 88–89 | checksum of the serial number             |
| 90–91 | CCITT checksum over bytes 4–89            |

The meter type selects the payload: type 8 sends 27 intervals of 14 bits from byte 32 on, every
other type 47 intervals of 9 bits from byte 33 on. The intervals are packed without padding, and
what is left of the payload after them is not used.
-/

namespace MeterRadio

/-- The payload that most meter types send. -/
structure IdmStandard where
  moduleProgrammingState : UInt8
  tamperCounters : Vector UInt8 6
  asyncCount : UInt16
  powerOutageFlags : Vector UInt8 6
  /-- Consumption at the end of the last interval. -/
  lastConsumption : UInt32
  /-- Consumption of each interval, 9 bits on the air. -/
  differentialConsumption : Vector UInt16 47
  deriving DecidableEq, Repr

/-- The payload of meter type 8. -/
structure IdmX18 where
  /-- Four bytes whose meaning is not known. -/
  unknown : Vector UInt8 4
  /-- Consumption at the end of the last interval. -/
  lastConsumption : UInt32
  /-- Excess counter, 24 bits on the air. -/
  lastExcess : UInt32
  /-- Residual counter, 24 bits on the air. -/
  lastResidual : UInt32
  /-- Consumption in finer units. -/
  lastConsumptionHighRes : UInt32
  /-- Consumption of each interval, 14 bits on the air. -/
  differentialConsumption : Vector UInt16 27
  deriving DecidableEq, Repr

/-- The two payload layouts. -/
inductive IdmPayload
  /-- 47 intervals of 9 bits. -/
  | standard (data : IdmStandard)
  /-- 27 intervals of 14 bits. -/
  | x18 (data : IdmX18)
  deriving DecidableEq, Repr

/-- The content of an Interval Data Message. -/
structure Idm where
  /-- Training sequence and sync as received. -/
  preamble : UInt32
  packetTypeId : UInt8
  packetLength : UInt8
  /-- Hamming code of the packet length. -/
  hammingCode : UInt8
  appVersion : UInt8
  /-- The meter's type, 4 bits on the air. -/
  ertType : UInt8
  ertId : UInt32
  /-- Number of the latest interval. -/
  intervalCount : UInt8
  /-- The part whose layout the meter type selects. -/
  payload : IdmPayload
  /-- Time since the last interval. -/
  txTimeOffset : UInt16
  /-- Checksum of the serial number. -/
  serialNumberCrc : UInt16
  /-- The checksum as received. -/
  packetCrc : UInt16
  deriving DecidableEq, Repr

/-- The four bytes an IDM starts with. -/
def idmPreamble : UInt32 := 0x555516A3

/-- The meter type that selects the second payload layout. -/
def idm18ErtType : UInt8 := 8

/-- Bytes before the trailer. -/
def idmTrailerStart : Nat := 86

/-- First bit, width and number of the packed intervals of a payload layout. -/
structure IntervalLayout where
  /-- Bit at which the first interval starts. -/
  start : Nat
  /-- Bits of one interval. -/
  width : Nat
  /-- Number of intervals. -/
  count : Nat
  deriving DecidableEq, Repr

/-- 47 intervals of 9 bits from byte 33 on. -/
def standardIntervals : IntervalLayout := ⟨8 * 33, 9, 47⟩

/-- 27 intervals of 14 bits from byte 32 on. -/
def x18Intervals : IntervalLayout := ⟨8 * 32, 14, 27⟩

/-- The kind that a payload layout makes of an IDM. -/
def IdmPayload.kind : IdmPayload → Kind
  | standard _ => .idm
  | x18 _ => .idm18

/-- Reads the intervals of a layout from a raw message. -/
def readIntervals (raw : Bytes) (l : IntervalLayout) :
    Except DecodeError (Vector UInt16 l.count) :=
  (readPacked raw l.start l.width l.count).mapError .range

namespace Idm

/-- The kind of the message, by its layout. -/
def kind (m : Idm) : Kind :=
  m.payload.kind

/-- The byte that carries the meter type. A message of the second layout always says that its
meter has type 8, so that it is read back in the same layout. -/
def typeByte (m : Idm) : UInt8 :=
  match m.payload with
  | .standard _ => UInt8.ofNat (m.ertType.toNat % 16)
  | .x18 _ => 0x18

/-- Bytes 0–13. -/
def header (m : Idm) : Bytes :=
  beBytes 4 idmPreamble.toNat
    ++ [m.packetTypeId, m.packetLength, m.hammingCode, m.appVersion, m.typeByte]
    ++ beBytes 4 m.ertId.toNat ++ [m.intervalCount]

end Idm

/-- The payload up to its intervals. -/
def IdmPayload.fixedPart : IdmPayload → Bytes
  | standard data =>
    [data.moduleProgrammingState] ++ data.tamperCounters.toList ++ beBytes 2 data.asyncCount.toNat
      ++ data.powerOutageFlags.toList ++ beBytes 4 data.lastConsumption.toNat
  | x18 data =>
    data.unknown.toList ++ beBytes 4 data.lastConsumption.toNat
      ++ beBytes 3 data.lastExcess.toNat ++ beBytes 3 data.lastResidual.toNat
      ++ beBytes 4 data.lastConsumptionHighRes.toNat

/-- How the intervals of a payload are packed. -/
def IdmPayload.intervalLayout : IdmPayload → IntervalLayout
  | standard _ => standardIntervals
  | x18 _ => x18Intervals

/-- The intervals of a payload. -/
def IdmPayload.intervals : IdmPayload → List UInt16
  | standard data => data.differentialConsumption.toList
  | x18 data => data.differentialConsumption.toList

namespace Idm

/-- Bytes 0–85 with the intervals still zero. -/
def blank (m : Idm) : Bytes :=
  let start := m.header ++ m.payload.fixedPart
  start ++ List.replicate (idmTrailerStart - start.length) 0

/-- The raw message; its preamble and its checksum are those of the format, whatever the record
says. -/
def encode (m : Idm) : Except RangeError Bytes := do
  let layout := m.payload.intervalLayout
  let d ← writePacked m.blank layout.start layout.width m.payload.intervals
  return Checksum.ccitt.withChecksum 4
    (d ++ beBytes 2 m.txTimeOffset.toNat ++ beBytes 2 m.serialNumberCrc.toNat)

/-- Reads the payload in the layout that the meter type selects. -/
def decodePayload (raw : Bytes) (ertType : UInt8) : Except DecodeError IdmPayload :=
  if ertType = idm18ErtType then do
    return .x18
      { unknown := byteFields raw 14 4
        lastConsumption := UInt32.ofNat (beField raw 18 4)
        lastExcess := UInt32.ofNat (beField raw 22 3)
        lastResidual := UInt32.ofNat (beField raw 25 3)
        lastConsumptionHighRes := UInt32.ofNat (beField raw 28 4)
        differentialConsumption := ← readIntervals raw x18Intervals }
  else do
    return .standard
      { moduleProgrammingState := byteAt raw 14
        tamperCounters := byteFields raw 15 6
        asyncCount := UInt16.ofNat (beField raw 21 2)
        powerOutageFlags := byteFields raw 23 6
        lastConsumption := UInt32.ofNat (beField raw 29 4)
        differentialConsumption := ← readIntervals raw standardIntervals }

/-- Reads a raw message whose length and checksum are right. -/
def decode (raw : Bytes) : Except DecodeError Idm := do
  checkEnvelope .idm raw
  let ertType := UInt8.ofNat ((byteAt raw 8).toNat % 16)
  let payload ← decodePayload raw ertType
  return {
    preamble := UInt32.ofNat (beField raw 0 4)
    packetTypeId := byteAt raw 4
    packetLength := byteAt raw 5
    hammingCode := byteAt raw 6
    appVersion := byteAt raw 7
    ertType
    ertId := UInt32.ofNat (beField raw 9 4)
    intervalCount := byteAt raw 13
    payload
    txTimeOffset := UInt16.ofNat (beField raw 86 2)
    serialNumberCrc := UInt16.ofNat (beField raw 88 2)
    packetCrc := UInt16.ofNat (beField raw 90 2) }

end Idm

end MeterRadio
