import MeterRadio.Message.Layout
import MeterRadio.Proofs.Message.RoundTrip
import MeterRadio.Proofs.Number

/-!
# What decoding makes of any bytes

Decoding has three outcomes, and the length and the checksum of the bytes tell which of them it is. A
record that is read has each field where the tables of its format say (`Record.standsIn_of_decode`).
`Record.decode_outcome` puts both together.
-/

namespace MeterRadio

variable {raw : Bytes} {kind : Kind}

/-! ## Fields -/

theorem Scm.standsIn_fields (h : Kind.scm.rawSize ≤ raw.length) : (fields raw).StandsIn raw := by
  have hlen : 12 ≤ raw.length := h
  refine ⟨?_, ?_, ?_, ?_, ?_, ?_⟩
  · have hhigh : (byteAt raw 2).toNat / 2 % 4 = numberAt raw 21 2 :=
      byteAt_part_eq_numberAt raw 2 5 2 (by decide)
    have hlow : beField raw 7 3 = numberAt raw 56 24 := beField_eq_numberAt (by omega)
    have hhighLt := numberAt_lt raw 21 2
    have hlowLt := numberAt_lt raw 56 24
    rw [fields, bitsNat_append, length_bitsAt, UInt32.toNat_ofNat', hhigh, hlow]
    exact Nat.mod_eq_of_lt (by omega)
  · have hpart : (byteAt raw 3).toNat / 64 % 4 = numberAt raw 24 2 :=
      byteAt_part_eq_numberAt raw 3 0 2 (by decide)
    have hlt := (byteAt raw 3).toNat_lt
    exact toNat_byte (by decide) (by rw [← hpart]; omega)
  · exact toNat_byte (by decide) (byteAt_part_eq_numberAt raw 3 2 4 (by decide))
  · have hpart : (byteAt raw 3).toNat / 1 % 4 = numberAt raw 30 2 :=
      byteAt_part_eq_numberAt raw 3 6 2 (by decide)
    exact toNat_byte (by decide) (by rw [← hpart, Nat.div_one])
  · exact toNat_word32 (by decide) (by omega)
  · exact toNat_word16 (by omega)

theorem ScmPlus.standsIn_fields (h : Kind.scmPlus.rawSize ≤ raw.length) :
    (fields raw).StandsIn raw := by
  have hlen : 16 ≤ raw.length := h
  exact ⟨toNat_word16 (by omega), toNat_byteAt raw 2, toNat_byteAt raw 3,
    toNat_word32 (by decide) (by omega), toNat_word32 (by decide) (by omega), toNat_word16 (by omega),
    toNat_word16 (by omega)⟩

namespace Idm

theorem standsIn_of_decodePayload {payload : IdmPayload} {t : UInt8}
    (h : Kind.idm.rawSize ≤ raw.length) (hpayload : decodePayload raw t = .ok payload) :
    payload.StandsIn raw t := by
  have hlen : 92 ≤ raw.length := h
  rw [decodePayload] at hpayload
  split_ifs at hpayload with htype
  · obtain ⟨values, hvalues, hpayload⟩ := bind_eq_ok hpayload
    cases hpayload
    have hpacked := readPacked_of_readIntervals hvalues
    exact ⟨htype, fun i hi => toNat_byteFields raw 14 hi, toNat_word32 (by decide) (by omega),
      toNat_word32 (by decide) (by omega), toNat_word32 (by decide) (by omega),
      toNat_word32 (by decide) (by omega), fun i hi => toNat_readPacked (by decide) hpacked hi⟩
  · obtain ⟨values, hvalues, hpayload⟩ := bind_eq_ok hpayload
    cases hpayload
    have hpacked := readPacked_of_readIntervals hvalues
    exact ⟨htype, toNat_byteAt raw 14, fun i hi => toNat_byteFields raw 15 hi, toNat_word16 (by omega),
      fun i hi => toNat_byteFields raw 23 hi, toNat_word32 (by decide) (by omega),
      fun i hi => toNat_readPacked (by decide) hpacked hi⟩

theorem standsIn_of_decode {m : Idm} (h : Kind.idm.rawSize ≤ raw.length) (hm : decode raw = .ok m) :
    m.StandsIn raw := by
  have hlen : 92 ≤ raw.length := h
  obtain ⟨_, -, hm⟩ := bind_eq_ok hm
  obtain ⟨payload, hpayload, hm⟩ := bind_eq_ok hm
  cases hm
  have htype : (byteAt raw 8).toNat / 1 % 16 = numberAt raw 68 4 :=
    byteAt_part_eq_numberAt raw 8 4 4 (by decide)
  exact
    { preamble := toNat_word32 (by decide) (by omega)
      packetTypeId := toNat_byteAt raw 4
      packetLength := toNat_byteAt raw 5
      hammingCode := toNat_byteAt raw 6
      appVersion := toNat_byteAt raw 7
      ertType := toNat_byte (by decide) (by rw [← htype, Nat.div_one])
      ertId := toNat_word32 (by decide) (by omega)
      intervalCount := toNat_byteAt raw 13
      payload := standsIn_of_decodePayload h hpayload
      txTimeOffset := toNat_word16 (by omega)
      serialNumberCrc := toNat_word16 (by omega)
      packetCrc := toNat_word16 (by omega) }

end Idm

namespace Record

theorem standsIn_of_decode {record : Record} (h : decode kind raw = .ok record) :
    record.StandsIn raw := by
  have hsize := (checkEnvelope_eq_ok_iff.mp (checkEnvelope_of_decode h)).1
  cases kind with
  | scm =>
    obtain ⟨m, hm, rfl⟩ := map_eq_ok h
    obtain rfl := Scm.fields_of_decode hm
    exact Scm.standsIn_fields hsize
  | scmPlus =>
    obtain ⟨m, hm, rfl⟩ := map_eq_ok h
    obtain rfl := ScmPlus.fields_of_decode hm
    exact ScmPlus.standsIn_fields hsize
  | idm =>
    obtain ⟨m, hm, rfl⟩ := map_eq_ok h
    exact Idm.standsIn_of_decode hsize hm
  | idm18 =>
    obtain ⟨m, hm, rfl⟩ := map_eq_ok h
    exact Idm.standsIn_of_decode hsize hm

/-! ## Outcomes -/

theorem decode_eq_truncated_iff :
    decode kind raw = .error (.truncated kind.format kind.rawSize raw.length) ↔
      raw.length < kind.rawSize := by
  constructor
  · intro h
    by_contra hsize
    obtain ⟨residual, herror⟩ := decode_error (Nat.le_of_not_lt hsize) h
    cases herror
  · exact decode_truncated

theorem decode_eq_checksum_iff :
    decode kind raw = .error (.checksum kind.format (kind.code.register (covered kind raw))) ↔
      kind.rawSize ≤ raw.length ∧ kind.code.register (covered kind raw) ≠ kind.code.residual := by
  constructor
  · intro h
    have hsize : kind.rawSize ≤ raw.length := by
      by_contra hshort
      cases h.symm.trans (decode_truncated (Nat.lt_of_not_le hshort))
    refine ⟨hsize, ?_⟩
    intro hres
    obtain ⟨record, hrecord⟩ := decode_ok (checkEnvelope_eq_ok_iff.mpr ⟨hsize, hres⟩)
    cases h.symm.trans hrecord
  · rintro ⟨hsize, hres⟩
    exact decode_damaged hsize hres

theorem exists_decode_eq_ok_iff : (∃ record, decode kind raw = .ok record) ↔
    kind.rawSize ≤ raw.length ∧ kind.code.register (covered kind raw) = kind.code.residual := by
  constructor
  · rintro ⟨record, h⟩
    exact checkEnvelope_eq_ok_iff.mp (checkEnvelope_of_decode h)
  · intro h
    exact decode_ok (checkEnvelope_eq_ok_iff.mpr h)

/-- No field lies outside the message. -/
theorem decode_ne_range (e : RangeError) : decode kind raw ≠ .error (.range e) := by
  intro h
  by_cases hsize : kind.rawSize ≤ raw.length
  · obtain ⟨residual, herror⟩ := decode_error hsize h
    cases herror
  · cases h.symm.trans (decode_truncated (Nat.lt_of_not_le hsize))

/-- What is read depends on the first bytes only, as many as a message has. -/
theorem decode_congr {raw' : Bytes} (h : raw'.take kind.rawSize = raw.take kind.rawSize) :
    decode kind raw' = decode kind raw := by
  have hlen := congrArg List.length h
  rw [List.length_take, List.length_take] at hlen
  by_cases hsize : kind.rawSize ≤ raw.length
  · rw [← decode_take (by omega : kind.rawSize ≤ raw'.length), h, decode_take hsize]
  · rw [List.take_of_length_le (by omega), List.take_of_length_le (by omega)] at h
    rw [h]

/-- **What decoding makes of any bytes.** They are too few exactly if there are fewer than a message
has; if there are enough, they fail exactly if the register over the covered ones does not end on the
residual, and the error tells where it ended; otherwise they are a record. No field ever lies outside
the message, bytes behind the message make no difference, and a record has the format of the kind, each
of its fields being the number in the bits that the tables say. -/
theorem decode_outcome (kind : Kind) (raw : Bytes) :
    (decode kind raw = .error (.truncated kind.format kind.rawSize raw.length) ↔
        raw.length < kind.rawSize) ∧
      (decode kind raw = .error (.checksum kind.format (kind.code.register (covered kind raw))) ↔
        kind.rawSize ≤ raw.length ∧
          kind.code.register (covered kind raw) ≠ kind.code.residual) ∧
      ((∃ record, decode kind raw = .ok record) ↔
        kind.rawSize ≤ raw.length ∧
          kind.code.register (covered kind raw) = kind.code.residual) ∧
      (∀ e, decode kind raw ≠ .error (.range e)) ∧
      (∀ raw', raw'.take kind.rawSize = raw.take kind.rawSize →
        decode kind raw' = decode kind raw) ∧
      ∀ record, decode kind raw = .ok record →
        record.sentAs = kind.format ∧ record.StandsIn raw := by
  refine ⟨decode_eq_truncated_iff, decode_eq_checksum_iff, exists_decode_eq_ok_iff, decode_ne_range,
    ?_, ?_⟩
  · intro raw' h
    exact decode_congr h
  · intro record h
    exact ⟨sentAs_of_decode h, standsIn_of_decode h⟩

end Record

end MeterRadio
