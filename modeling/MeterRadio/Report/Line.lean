import MeterRadio.Message.Record
import MeterRadio.Report.Json

/-!
# Output lines

Every accepted record is reported as one line of JSON text with the time of its reception, its kind,
the raw message in hexadecimal and its content. The order of the fields is fixed.
-/

namespace MeterRadio

open Report (Json)

/-- A machine word as a value. -/
def Report.Json.ofByte (b : UInt8) : Json := .number b.toNat

/-- A machine word as a value. -/
def Report.Json.ofWord16 (w : UInt16) : Json := .number w.toNat

/-- A machine word as a value. -/
def Report.Json.ofWord32 (w : UInt32) : Json := .number w.toNat

open Report.Json (ofByte ofWord16 ofWord32)

/-- The fields of an SCM message. -/
def Scm.jsonFields (m : Scm) : List (String × Json) :=
  [("id", ofWord32 m.id),
    ("ert_type", ofByte m.ertType),
    ("tamper_phy", ofByte m.tamperPhy),
    ("tamper_enc", ofByte m.tamperEnc),
    ("consumption", ofWord32 m.consumption),
    ("crc", ofWord16 m.crc)]

/-- The fields of an SCM+ message. -/
def ScmPlus.jsonFields (m : ScmPlus) : List (String × Json) :=
  [("frame_sync", ofWord16 m.frameSync),
    ("protocol_id", ofByte m.protocolId),
    ("endpoint_type", ofByte m.endpointType),
    ("endpoint_id", ofWord32 m.endpointId),
    ("consumption", ofWord32 m.consumption),
    ("tamper", ofWord16 m.tamper),
    ("crc", ofWord16 m.crc)]

/-- The fields of an IDM payload; the layout is named first. -/
def IdmPayload.jsonFields : IdmPayload → List (String × Json)
  | standard data =>
    [("layout", .string "Standard"),
      ("module_programming_state", ofByte data.moduleProgrammingState),
      ("tamper_counters", .array (data.tamperCounters.toList.map ofByte)),
      ("async_count", ofWord16 data.asyncCount),
      ("power_outage_flags", .array (data.powerOutageFlags.toList.map ofByte)),
      ("last_consumption", ofWord32 data.lastConsumption),
      ("differential_consumption", .array (data.differentialConsumption.toList.map ofWord16))]
  | x18 data =>
    [("layout", .string "X18"),
      ("unknown", .array (data.unknown.toList.map ofByte)),
      ("last_consumption", ofWord32 data.lastConsumption),
      ("last_excess", ofWord32 data.lastExcess),
      ("last_residual", ofWord32 data.lastResidual),
      ("last_consumption_high_res", ofWord32 data.lastConsumptionHighRes),
      ("differential_consumption", .array (data.differentialConsumption.toList.map ofWord16))]

/-- The fields of an IDM. -/
def Idm.jsonFields (m : Idm) : List (String × Json) :=
  [("preamble", ofWord32 m.preamble),
    ("packet_type_id", ofByte m.packetTypeId),
    ("packet_length", ofByte m.packetLength),
    ("hamming_code", ofByte m.hammingCode),
    ("app_version", ofByte m.appVersion),
    ("ert_type", ofByte m.ertType),
    ("ert_id", ofWord32 m.ertId),
    ("interval_count", ofByte m.intervalCount),
    ("payload", .object m.payload.jsonFields),
    ("tx_time_offset", ofWord16 m.txTimeOffset),
    ("serial_number_crc", ofWord16 m.serialNumberCrc),
    ("packet_crc", ofWord16 m.packetCrc)]

/-- A record as a value; the format is named first. -/
def Record.toJson : Record → Json
  | scm m => .object (("type", .string "Scm") :: m.jsonFields)
  | scmPlus m => .object (("type", .string "ScmPlus") :: m.jsonFields)
  | idm m => .object (("type", .string "Idm") :: m.jsonFields)

/-- An output line as a value. -/
def Record.lineJson (receivedAt : String) (record : Record) (kind : Kind) (raw : Bytes) : Json :=
  .object
    [("received_at", .string receivedAt),
      ("kind", .string kind.name),
      ("raw", .string (hex raw)),
      ("message", record.toJson)]

/-- The output line for a record that was received at the given time. -/
def Record.line (receivedAt : String) (record : Record) (kind : Kind) (raw : Bytes) : String :=
  (record.lineJson receivedAt kind raw).render

/-- The output for records with their kinds and raw messages that were received at the given time: a
line for each of them. -/
def Report.stream (receivedAt : String) (reports : List (Record × Kind × Bytes)) : String :=
  String.join (reports.map fun (record, kind, raw) => record.line receivedAt kind raw ++ "\n")

end MeterRadio
