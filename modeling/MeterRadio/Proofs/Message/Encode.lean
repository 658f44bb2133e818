import MeterRadio.Line.History
import MeterRadio.Proofs.Bits
import MeterRadio.Proofs.Checksum.Residual
import MeterRadio.Proofs.Message.Decode
import MeterRadio.Proofs.Packed

/-!
# What encoding sends

Every record can be encoded, and what is sent is a message: it has the size and starts with the
preamble of its kind, and its checksum holds (`Record.isMessage_encode`).
-/

namespace MeterRadio

open Checksum (Code)

variable {raw d : Bytes} {kind : Kind}

/-- The bytes are a whole message of the kind. -/
structure IsMessage (kind : Kind) (raw : Bytes) : Prop where
  length_eq : raw.length = kind.rawSize
  envelope : checkEnvelope kind raw = .ok ()
  starts : kind.preambleBits <+: Bytes.bits raw

theorem Kind.sound_code (kind : Kind) : kind.code.Sound := by
  cases kind with
  | scm => exact Checksum.sound_bch
  | scmPlus => exact Checksum.sound_ccitt
  | idm => exact Checksum.sound_ccitt
  | idm18 => exact Checksum.sound_ccitt

/-- A body of the right size that is sent with its checksum passes. -/
theorem checkEnvelope_withChecksum (h : d.length + 2 = kind.rawSize) :
    checkEnvelope kind (kind.code.withChecksum kind.firstCovered d) = .ok () := by
  have hfirst := kind.firstCovered_add_two_le
  have hlen : (kind.code.withChecksum kind.firstCovered d).length = d.length + 2 :=
    Code.length_withChecksum _ _ _
  have hcovered : covered kind (kind.code.withChecksum kind.firstCovered d) =
      d.drop kind.firstCovered ++ beBytes 2 (kind.code.checksum (d.drop kind.firstCovered)).toNat := by
    rw [covered, slice, Code.withChecksum, List.drop_append_of_le_length (by omega)]
    refine List.take_of_length_le ?_
    rw [List.length_append, List.length_drop, length_beBytes]
    omega
  rw [checkEnvelope_eq_ok_iff, hcovered, hlen]
  exact ⟨Nat.le_of_eq h.symm, Code.register_append_checksum kind.sound_code _⟩

/-! ## The formats -/

theorem Scm.isMessage_encode (m : Scm) : IsMessage .scm m.encode where
  length_eq := m.length_encode
  envelope := checkEnvelope_withChecksum rfl
  starts := by
    have hid : ∀ n < 4, Kind.scm.preambleBits <+: Bytes.bits [0xF9, 0x53, UInt8.ofNat (2 * n)] := by
      decide
    -- the third byte also holds two bits of the id, behind the last five of the preamble
    refine (hid (m.id.toNat / 0x1000000 % 4) (Nat.mod_lt _ (by decide))).trans (Bytes.bits_prefix ?_)
    exact ⟨_, rfl⟩

theorem ScmPlus.isMessage_encode (m : ScmPlus) : IsMessage .scmPlus m.encode where
  length_eq := m.length_encode
  envelope := checkEnvelope_withChecksum (by simp [body, Kind.rawSize])
  starts := by
    refine Bytes.bits_prefix ?_
    rw [encode, Code.withChecksum, body]
    simp only [List.append_assoc]
    exact List.prefix_append _ _

namespace Idm

theorem length_header (m : Idm) : m.header.length = 14 := by
  simp [header]

theorem length_fixedPart (p : IdmPayload) : 8 * (14 + p.fixedPart.length) = p.intervalLayout.start := by
  cases p with
  | standard data => simp [IdmPayload.fixedPart, IdmPayload.intervalLayout, standardIntervals]
  | x18 data => simp [IdmPayload.fixedPart, IdmPayload.intervalLayout, x18Intervals]

theorem length_intervals (p : IdmPayload) : p.intervals.length = p.intervalLayout.count := by
  cases p with
  | standard data => exact Vector.length_toList
  | x18 data => exact Vector.length_toList

theorem inside_intervalLayout (p : IdmPayload) : p.intervalLayout.Inside := by
  cases p with
  | standard data => exact inside_standardIntervals
  | x18 data => exact inside_x18Intervals

theorem length_blank (m : Idm) : m.blank.length = idmTrailerStart := by
  have hfixed := length_fixedPart m.payload
  have hinside := (inside_intervalLayout m.payload).end_le
  have hle : (m.header ++ m.payload.fixedPart).length ≤ idmTrailerStart := by
    rw [List.length_append, m.length_header]
    omega
  rw [blank]
  simp only [List.length_append, List.length_replicate] at hle ⊢
  omega

/-- A message without its checksum whose intervals are the bytes `packed`. -/
def body (m : Idm) (packed : Bytes) : Bytes :=
  m.header ++ m.payload.fixedPart ++ packed ++ beBytes 2 m.txTimeOffset.toNat
    ++ beBytes 2 m.serialNumberCrc.toNat

/-- The bytes hold the intervals of the record and zeros behind them. -/
structure Laid (m : Idm) (packed : Bytes) : Prop where
  length_eq : (m.header ++ m.payload.fixedPart ++ packed).length = idmTrailerStart
  packs : Packs (m.header ++ m.payload.fixedPart ++ packed) m.payload.intervalLayout.start
    m.payload.intervalLayout.width m.payload.intervals
  unused : ∀ i, m.payload.intervalLayout.stop ≤ i →
    Bytes.bit (m.header ++ m.payload.fixedPart ++ packed) i = false

theorem Laid.length_body {m : Idm} {packed : Bytes} (h : m.Laid packed) :
    (m.body packed).length + 2 = Kind.idm.rawSize := by
  rw [body, List.length_append, List.length_append, h.length_eq, length_beBytes, length_beBytes]
  rfl

/-- The intervals fit into the payload, so an IDM can always be encoded. -/
theorem encode_eq (m : Idm) :
    ∃ packed, m.Laid packed ∧ m.encode = .ok (Checksum.ccitt.withChecksum 4 (m.body packed)) := by
  have hinside := inside_intervalLayout m.payload
  have hfixed := length_fixedPart m.payload
  have hcount := length_intervals m.payload
  have hend : m.payload.intervalLayout.start +
      m.payload.intervals.length * m.payload.intervalLayout.width ≤ 8 * m.blank.length := by
    rw [hcount, m.length_blank]
    exact hinside.end_le
  obtain ⟨d, hd, hlen, hpacks, hkeeps⟩ := writePacked_ok hinside.width_pos hinside.width_le hend
  rw [m.length_blank] at hlen
  have hstart : 8 * (m.header ++ m.payload.fixedPart).length = m.payload.intervalLayout.start := by
    rw [List.length_append, m.length_header]
    exact hfixed
  have hle := hinside.end_le
  -- the intervals are written behind the fixed part
  obtain ⟨packed, rfl⟩ : m.header ++ m.payload.fixedPart <+: d := by
    rw [List.prefix_iff_eq_take]
    refine Bytes.ext_bit ?_ fun i hi => ?_
    · rw [List.length_take]
      omega
    · rw [Bytes.bit_take _ hi, hkeeps i (by omega), blank]
      exact ((Bytes.bit_append _ _ i).trans (if_pos hi)).symm
  refine ⟨packed, ⟨hlen, hpacks, fun i hi => ?_⟩, by rw [encode, hd]; rfl⟩
  have hstop : m.payload.intervalLayout.stop =
      m.payload.intervalLayout.start + m.payload.intervals.length * m.payload.intervalLayout.width := by
    rw [hcount]
    rfl
  have hzeros (n j : Nat) : Bytes.bit (List.replicate n 0) j = false := by
    rw [Bytes.bit, List.getD_eq_getElem?_getD, List.getElem?_replicate]
    split_ifs <;> simp [byteBit]
  rw [hkeeps i (.inr (hstop ▸ hi)), blank, Bytes.bit_append, if_neg (by omega)]
  exact hzeros _ _

theorem isMessage_encode (m : Idm) : ∃ raw, m.encode = .ok raw ∧ IsMessage .idm raw := by
  obtain ⟨packed, hlaid, hencode⟩ := m.encode_eq
  refine ⟨_, hencode, (Code.length_withChecksum _ _ _).trans hlaid.length_body,
    checkEnvelope_withChecksum hlaid.length_body, Bytes.bits_prefix ?_⟩
  rw [Code.withChecksum, body, header]
  simp only [List.append_assoc]
  exact List.prefix_append _ _

end Idm

theorem Record.isMessage_encode (m : Record) :
    ∃ raw, m.encode = .ok raw ∧ IsMessage m.sentAs raw := by
  cases m with
  | scm m => exact ⟨m.encode, rfl, m.isMessage_encode⟩
  | scmPlus m => exact ⟨m.encode, rfl, m.isMessage_encode⟩
  | idm m => exact m.isMessage_encode

end MeterRadio
