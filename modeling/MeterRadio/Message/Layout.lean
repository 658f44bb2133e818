import MeterRadio.Bits.Number
import MeterRadio.Message.Record

/-!
# Where the fields of a record stand

Each format has a table that says in which bits of a message a field stands, bit 0 being the most
significant bit of the first byte. `StandsIn` says that the fields of a record are the numbers that
these bits spell. A field of whole bytes is given by its first byte, as in the tables of the formats.
-/

namespace MeterRadio

variable (raw : Bytes)

/-- The fields of an SCM. The high bits of the meter's id stand apart from the others. -/
structure Scm.StandsIn (m : Scm) : Prop where
  id : m.id.toNat = bitsNat (bitsAt raw 21 2 ++ bitsAt raw 56 24)
  tamperPhy : m.tamperPhy.toNat = numberAt raw 24 2
  ertType : m.ertType.toNat = numberAt raw 26 4
  tamperEnc : m.tamperEnc.toNat = numberAt raw 30 2
  consumption : m.consumption.toNat = numberAt raw 32 24
  crc : m.crc.toNat = numberAt raw 80 16

/-- The fields of an SCM+, one behind the other. -/
structure ScmPlus.StandsIn (m : ScmPlus) : Prop where
  frameSync : m.frameSync.toNat = numberAt raw 0 16
  protocolId : m.protocolId.toNat = numberAt raw 16 8
  endpointType : m.endpointType.toNat = numberAt raw 24 8
  endpointId : m.endpointId.toNat = numberAt raw 32 32
  consumption : m.consumption.toNat = numberAt raw 64 32
  tamper : m.tamper.toNat = numberAt raw 96 16
  crc : m.crc.toNat = numberAt raw 112 16

/-- The payload of most meter types. -/
structure IdmStandard.StandsIn (data : IdmStandard) : Prop where
  moduleProgrammingState : data.moduleProgrammingState.toNat = numberAt raw (8 * 14) 8
  tamperCounters : ∀ i (h : i < 6), data.tamperCounters[i].toNat = numberAt raw (8 * (15 + i)) 8
  asyncCount : data.asyncCount.toNat = numberAt raw (8 * 21) 16
  powerOutageFlags : ∀ i (h : i < 6), data.powerOutageFlags[i].toNat = numberAt raw (8 * (23 + i)) 8
  lastConsumption : data.lastConsumption.toNat = numberAt raw (8 * 29) 32
  differentialConsumption : ∀ i (h : i < 47),
    data.differentialConsumption[i].toNat = numberAt raw (264 + 9 * i) 9

/-- The payload of meter type 8. -/
structure IdmX18.StandsIn (data : IdmX18) : Prop where
  unknown : ∀ i (h : i < 4), data.unknown[i].toNat = numberAt raw (8 * (14 + i)) 8
  lastConsumption : data.lastConsumption.toNat = numberAt raw (8 * 18) 32
  lastExcess : data.lastExcess.toNat = numberAt raw (8 * 22) 24
  lastResidual : data.lastResidual.toNat = numberAt raw (8 * 25) 24
  lastConsumptionHighRes : data.lastConsumptionHighRes.toNat = numberAt raw (8 * 28) 32
  differentialConsumption : ∀ i (h : i < 27),
    data.differentialConsumption[i].toNat = numberAt raw (256 + 14 * i) 14

/-- The payload in the layout that the meter type selects. -/
def IdmPayload.StandsIn (ertType : UInt8) : IdmPayload → Prop
  | standard data => ertType ≠ 8 ∧ data.StandsIn raw
  | x18 data => ertType = 8 ∧ data.StandsIn raw

/-- The fields of an IDM. -/
structure Idm.StandsIn (m : Idm) : Prop where
  preamble : m.preamble.toNat = numberAt raw 0 32
  packetTypeId : m.packetTypeId.toNat = numberAt raw (8 * 4) 8
  packetLength : m.packetLength.toNat = numberAt raw (8 * 5) 8
  hammingCode : m.hammingCode.toNat = numberAt raw (8 * 6) 8
  appVersion : m.appVersion.toNat = numberAt raw (8 * 7) 8
  ertType : m.ertType.toNat = numberAt raw 68 4
  ertId : m.ertId.toNat = numberAt raw (8 * 9) 32
  intervalCount : m.intervalCount.toNat = numberAt raw (8 * 13) 8
  payload : m.payload.StandsIn raw m.ertType
  txTimeOffset : m.txTimeOffset.toNat = numberAt raw (8 * 86) 16
  serialNumberCrc : m.serialNumberCrc.toNat = numberAt raw (8 * 88) 16
  packetCrc : m.packetCrc.toNat = numberAt raw (8 * 90) 16

/-- The fields of a record are the numbers in their bits of the message. -/
def Record.StandsIn : Record → Prop
  | scm m => m.StandsIn raw
  | scmPlus m => m.StandsIn raw
  | idm m => m.StandsIn raw

end MeterRadio
