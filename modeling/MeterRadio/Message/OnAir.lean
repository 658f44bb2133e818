import MeterRadio.Message.Record

/-!
# What is sent of a record, and what is recorded of a message

The fields of a record are machine words that are wider than the bits they have in a message. The
high bits are not sent, the preamble is always that of the format and the checksum is always that of
what is sent, so that a receiver reads `onAir` where the sender wrote `m`.

The other way around, a record does not hold all bits of a message. `Kind.Lost` are the bits that it
does not hold, and a message is `Canonical` if the bits that do not come from the record are those
that encoding puts there.
-/

namespace MeterRadio

/-- An SCM record as it is received. -/
def Scm.onAir (m : Scm) : Scm where
  id := m.id % 0x4000000
  ertType := m.ertType % 16
  tamperPhy := m.tamperPhy % 4
  tamperEnc := m.tamperEnc % 4
  consumption := m.consumption % 0x1000000
  crc := Checksum.bch.register (slice m.encode 2 8)

/-- An SCM+ record as it is received. -/
def ScmPlus.onAir (m : ScmPlus) : ScmPlus :=
  { m with
    frameSync := scmPlusSync
    crc := Checksum.ccitt.checksum (slice m.encode 2 12) }

/-- An IDM payload as it is received. -/
def IdmPayload.onAir : IdmPayload → IdmPayload
  | standard data =>
    .standard { data with
      differentialConsumption := data.differentialConsumption.map (· % 0x200) }
  | x18 data =>
    .x18 { data with
      lastExcess := data.lastExcess % 0x1000000
      lastResidual := data.lastResidual % 0x1000000
      differentialConsumption := data.differentialConsumption.map (· % 0x4000) }

/-- The meter type as it is received: the second payload layout stands for a type of its own. -/
def Idm.typeOnAir (m : Idm) : UInt8 :=
  match m.payload with
  | .standard _ => m.ertType % 16
  | .x18 _ => idm18ErtType

/-- An IDM record as it is received from the raw message `raw`. -/
def Idm.onAir (m : Idm) (raw : Bytes) : Idm :=
  { m with
    preamble := idmPreamble
    ertType := m.typeOnAir
    payload := m.payload.onAir
    packetCrc := Checksum.ccitt.checksum (slice raw 4 86) }

/-- The bits of a raw message that are not recorded. -/
def Kind.Lost (kind : Kind) (i : Nat) : Prop :=
  match kind with
  | .scm => i < 21 ∨ i = 23
  | .scmPlus => False
  | .idm => 64 ≤ i ∧ i < 68 ∨ i = 687
  | .idm18 => 64 ≤ i ∧ i < 68 ∨ 634 ≤ i ∧ i ≤ 687

/-- The bits of a raw message that do not come from the record are those that encoding puts there:
the preamble, and zeros in the bits that are not used. -/
def Canonical (kind : Kind) (raw : Bytes) : Prop :=
  match kind with
  | .scm => beField raw 0 3 / 8 = scmPreamble.toNat / 8 ∧ (byteAt raw 2).toNat % 2 = 0
  | .scmPlus => beField raw 0 2 = scmPlusSync.toNat
  | .idm =>
    beField raw 0 4 = idmPreamble.toNat ∧ (byteAt raw 8).toNat / 16 = 0 ∧
      (byteAt raw 85).toNat % 2 = 0
  | .idm18 =>
    beField raw 0 4 = idmPreamble.toNat ∧ byteAt raw 8 = 0x18 ∧
      ∀ i, 634 ≤ i → i ≤ 687 → Bytes.bit raw i = false

end MeterRadio
