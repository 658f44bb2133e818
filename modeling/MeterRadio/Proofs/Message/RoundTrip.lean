import MeterRadio.Message.OnAir
import MeterRadio.Proofs.Message.Encode
import MeterRadio.Proofs.Slice

/-!
# Decoding what was encoded

Every format is read at the places where it is written, so decoding gives back what was sent of a
record (`Record.decode_of_encode`). Only an IDM in the standard layout whose meter type is 8 in its
low four bits is taken for another one: that type announces the second layout.
-/

namespace MeterRadio

open Checksum (Code)

variable {raw d packed : Bytes} {first len : Nat}

/-! ## The checksum -/

theorem slice_withChecksum (c : Code) (h : first + len = d.length) :
    slice (c.withChecksum first d) first len = d.drop first := by
  rw [Code.withChecksum, slice_append_left (by omega), slice, List.take_of_length_le]
  rw [List.length_drop]
  omega

theorem slice_withChecksum_end (c : Code) (h : d.length = len) :
    slice (c.withChecksum first d) len 2 = beBytes 2 (c.checksum (d.drop first)).toNat := by
  rw [Code.withChecksum, slice_append_right (Nat.le_of_eq h), h, Nat.sub_self,
    slice_self (length_beBytes _ _)]

/-! ## Messages with one reading -/

namespace Scm

theorem fields_encode (m : Scm) : fields m.encode = m.onAir := by
  have hbody : m.body.length = 10 := by simp [body]
  have hcrc : UInt16.ofNat (beField m.encode 10 2) = Checksum.bch.register (slice m.encode 2 8) := by
    rw [encode, slice_withChecksum _ hbody.symm]
    exact word16_of_slice (slice_withChecksum_end _ hbody)
  have hhigh : byteAt m.encode 2 = UInt8.ofNat (2 * (m.id.toNat / 0x1000000 % 4)) := rfl
  have hflags : byteAt m.encode 3 = UInt8.ofNat (64 * (m.tamperPhy.toNat % 4)
      + 4 * (m.ertType.toNat % 16) + m.tamperEnc.toNat % 4) := rfl
  have hid : beField m.encode 7 3 = m.id.toNat % 256 ^ 3 := beField_beBytes rfl
  rw [fields, onAir, hcrc, hhigh, hflags, hid, word24_of_slice (w := m.consumption) rfl]
  congr 1
  · apply UInt32.toNat_inj.mp
    simp
    omega
  · apply UInt8.toNat_inj.mp
    simp
    omega
  · apply UInt8.toNat_inj.mp
    simp
    omega
  · apply UInt8.toNat_inj.mp
    simp
    omega

theorem decode_encode (m : Scm) : decode m.encode = .ok m.onAir := by
  rw [decode, m.isMessage_encode.envelope, ← fields_encode]
  rfl

end Scm

namespace ScmPlus

theorem fields_encode (m : ScmPlus) : fields m.encode = m.onAir := by
  have hbody : m.body.length = 14 := by simp [body]
  have hcrc : UInt16.ofNat (beField m.encode 14 2) =
      Checksum.ccitt.checksum (slice m.encode 2 12) := by
    rw [encode, slice_withChecksum _ hbody.symm]
    exact word16_of_slice (slice_withChecksum_end _ hbody)
  have hsync : UInt16.ofNat (beField m.encode 0 2) = scmPlusSync := word16_of_slice rfl
  have hid : UInt32.ofNat (beField m.encode 4 4) = m.endpointId := word32_of_slice rfl
  have hconsumption : UInt32.ofNat (beField m.encode 8 4) = m.consumption := word32_of_slice rfl
  have htamper : UInt16.ofNat (beField m.encode 12 2) = m.tamper := word16_of_slice rfl
  rw [fields, hcrc, hsync, hid, hconsumption, htamper]
  rfl

theorem decode_encode (m : ScmPlus) : decode m.encode = .ok m.onAir := by
  rw [decode, m.isMessage_encode.envelope, ← fields_encode]
  rfl

end ScmPlus

/-! ## Intervals -/

theorem readPacked_of_readIntervals {l : IntervalLayout} {values : Vector UInt16 l.count}
    (h : readIntervals raw l = .ok values) : readPacked raw l.start l.width l.count = .ok values := by
  cases hread : readPacked raw l.start l.width l.count with
  | error e =>
    rw [readIntervals, hread] at h
    cases h
  | ok values' =>
    rw [readIntervals, hread] at h
    cases h
    rfl

/-- The intervals that are packed in a message are read, as far as they have been sent. -/
theorem readIntervals_of_packs {l : IntervalLayout} {values : Vector UInt16 l.count}
    (hinside : l.Inside) (hwidth : l.width < 16) (hlen : Kind.idm.rawSize ≤ raw.length)
    (h : Packs raw l.start l.width values.toList) :
    readIntervals raw l = .ok (values.map (· % UInt16.ofNat (2 ^ l.width))) := by
  obtain ⟨read, hread⟩ := readIntervals_ok hinside hlen
  obtain ⟨hpacks, hlt⟩ := packs_of_readPacked (by omega) (readPacked_of_readIntervals hread)
  have hpow : 2 ^ l.width < 2 ^ 16 := Nat.pow_lt_pow_right (by omega) hwidth
  rw [hread]
  congr 1
  ext k hk
  have hmod := hpacks.mod_eq h (k := k) (by simpa using hk) (by simpa using hk)
  rw [Vector.getElem_toList, Vector.getElem_toList,
    Nat.mod_eq_of_lt (hlt _ (Vector.getElem_mem hk))] at hmod
  rw [Vector.getElem_map, UInt16.toNat_mod, UInt16.toNat_ofNat', Nat.mod_eq_of_lt hpow, hmod]

/-! ## Messages with intervals -/

namespace Idm

/-- A raw message whose intervals are the bytes `packed`. -/
def sent (m : Idm) (packed : Bytes) : Bytes :=
  Checksum.ccitt.withChecksum 4 (m.body packed)

variable {m : Idm}

theorem sent_eq_append (m : Idm) (packed : Bytes) :
    m.sent packed = m.header ++ m.payload.fixedPart ++ packed ++
      (beBytes 2 m.txTimeOffset.toNat ++ beBytes 2 m.serialNumberCrc.toNat ++
        beBytes 2 (Checksum.ccitt.checksum ((m.body packed).drop 4)).toNat) := by
  simp only [sent, Code.withChecksum, body, List.append_assoc]

theorem slice_sent (m : Idm) (packed : Bytes) (pos : Nat)
    (h : pos + len ≤ m.payload.fixedPart.length) :
    slice (m.sent packed) (14 + pos) len = slice m.payload.fixedPart pos len := by
  have hheader := m.length_header
  have hpos : 14 + pos - m.header.length = pos := by omega
  have hlen : 14 + pos + len ≤ (m.header ++ m.payload.fixedPart).length := by
    rw [List.length_append]
    omega
  rw [sent_eq_append, List.append_assoc _ packed, slice_append_left hlen,
    slice_append_right (by omega), hpos]

theorem Laid.length_sent (h : m.Laid packed) : (m.sent packed).length = Kind.idm.rawSize :=
  (Code.length_withChecksum _ _ _).trans h.length_body

theorem Laid.bit_sent (h : m.Laid packed) {i : Nat} (hi : i < 8 * idmTrailerStart) :
    Bytes.bit (m.sent packed) i = Bytes.bit (m.header ++ m.payload.fixedPart ++ packed) i := by
  rw [sent_eq_append]
  refine (Bytes.bit_append _ _ i).trans (if_pos ?_)
  rwa [h.length_eq]

theorem Laid.readIntervals_sent (h : m.Laid packed) {l : IntervalLayout}
    (hl : m.payload.intervalLayout = l) (hwidth : l.width < 16) (values : Vector UInt16 l.count)
    (hvalues : m.payload.intervals = values.toList) :
    readIntervals (m.sent packed) l = .ok (values.map (· % UInt16.ofNat (2 ^ l.width))) := by
  have hinside : l.Inside := hl ▸ inside_intervalLayout m.payload
  have hpacks := h.packs
  rw [hl, hvalues] at hpacks
  refine readIntervals_of_packs hinside hwidth (Nat.le_of_eq h.length_sent.symm) ?_
  refine hpacks.congr fun i _ hi => h.bit_sent ?_
  have hend := hinside.end_le
  rw [Vector.length_toList] at hi
  omega

theorem Laid.decodePayload_standard (h : m.Laid packed) {data : IdmStandard}
    (hm : m.payload = .standard data) {t : UInt8} (ht : t ≠ idm18ErtType) :
    decodePayload (m.sent packed) t = .ok m.payload.onAir := by
  have hfixed : m.payload.fixedPart = [data.moduleProgrammingState] ++ data.tamperCounters.toList
      ++ beBytes 2 data.asyncCount.toNat ++ data.powerOutageFlags.toList
      ++ beBytes 4 data.lastConsumption.toNat := by rw [hm]; rfl
  have hlen : m.payload.fixedPart.length = 19 := by simp [hfixed]
  have hraw : (m.sent packed).length = 92 := h.length_sent
  have hstate : byteAt (m.sent packed) 14 = data.moduleProgrammingState := by
    have hfirst : slice (m.sent packed) 14 1 = [data.moduleProgrammingState] := by
      rw [m.slice_sent packed 0 (by omega), hfixed]
      rfl
    rwa [← singleton_byteAt (by omega), List.singleton_inj] at hfirst
  have htamper : slice (m.sent packed) 15 6 = data.tamperCounters.toList := by
    rw [m.slice_sent packed 1 (by omega), hfixed]
    simp (disch := simp) [slice_cons, slice_append_left, slice_self]
  have hasync : slice (m.sent packed) 21 2 = beBytes 2 data.asyncCount.toNat := by
    rw [m.slice_sent packed 7 (by omega), hfixed]
    simp (disch := simp) [slice_cons, slice_append_left, slice_append_right, slice_self]
  have hflags : slice (m.sent packed) 23 6 = data.powerOutageFlags.toList := by
    rw [m.slice_sent packed 9 (by omega), hfixed]
    simp (disch := simp) [slice_cons, slice_append_left, slice_append_right, slice_self]
  have hconsumption : slice (m.sent packed) 29 4 = beBytes 4 data.lastConsumption.toNat := by
    rw [m.slice_sent packed 15 (by omega), hfixed]
    simp (disch := simp) [slice_cons, slice_append_right, slice_self]
  have hintervals := h.readIntervals_sent (l := standardIntervals) (by rw [hm]; rfl) (by decide)
    data.differentialConsumption (by rw [hm]; rfl)
  rw [decodePayload, if_neg ht, hstate, byteFields_of_slice htamper (by omega), word16_of_slice hasync,
    byteFields_of_slice hflags (by omega), word32_of_slice hconsumption, hintervals, hm]
  rfl

theorem Laid.decodePayload_x18 (h : m.Laid packed) {data : IdmX18} (hm : m.payload = .x18 data) :
    decodePayload (m.sent packed) idm18ErtType = .ok m.payload.onAir := by
  have hfixed : m.payload.fixedPart = data.unknown.toList ++ beBytes 4 data.lastConsumption.toNat
      ++ beBytes 3 data.lastExcess.toNat ++ beBytes 3 data.lastResidual.toNat
      ++ beBytes 4 data.lastConsumptionHighRes.toNat := by rw [hm]; rfl
  have hlen : m.payload.fixedPart.length = 18 := by simp [hfixed]
  have hraw : (m.sent packed).length = 92 := h.length_sent
  have hunknown : slice (m.sent packed) 14 4 = data.unknown.toList := by
    rw [m.slice_sent packed 0 (by omega), hfixed]
    simp (disch := simp) [slice_append_left, slice_self]
  have hconsumption : slice (m.sent packed) 18 4 = beBytes 4 data.lastConsumption.toNat := by
    rw [m.slice_sent packed 4 (by omega), hfixed]
    simp (disch := simp) [slice_append_left, slice_append_right, slice_self]
  have hexcess : slice (m.sent packed) 22 3 = beBytes 3 data.lastExcess.toNat := by
    rw [m.slice_sent packed 8 (by omega), hfixed]
    simp (disch := simp) [slice_append_left, slice_append_right, slice_self]
  have hresidual : slice (m.sent packed) 25 3 = beBytes 3 data.lastResidual.toNat := by
    rw [m.slice_sent packed 11 (by omega), hfixed]
    simp (disch := simp) [slice_append_left, slice_append_right, slice_self]
  have hhigh : slice (m.sent packed) 28 4 = beBytes 4 data.lastConsumptionHighRes.toNat := by
    rw [m.slice_sent packed 14 (by omega), hfixed]
    simp (disch := simp) [slice_append_right, slice_self]
  have hintervals := h.readIntervals_sent (l := x18Intervals) (by rw [hm]; rfl) (by decide)
    data.differentialConsumption (by rw [hm]; rfl)
  rw [decodePayload, if_pos rfl, byteFields_of_slice hunknown (by omega), word32_of_slice hconsumption,
    word24_of_slice hexcess, word24_of_slice hresidual, word32_of_slice hhigh, hintervals, hm]
  rfl

theorem typeOnAir_eq (m : Idm) : UInt8.ofNat (m.typeByte.toNat % 16) = m.typeOnAir := by
  rw [typeByte, typeOnAir]
  cases m.payload with
  | standard data =>
    apply UInt8.toNat_inj.mp
    simp
    omega
  | x18 data => exact (by decide : UInt8.ofNat ((0x18 : UInt8).toNat % 16) = idm18ErtType)

/-- Everything but the payload is read where it was written. -/
theorem Laid.decode_sent (h : m.Laid packed) {payload : IdmPayload}
    (hpayload : decodePayload (m.sent packed) m.typeOnAir = .ok payload) :
    decode (m.sent packed) = .ok { m.onAir (m.sent packed) with payload } := by
  have hcheck : checkEnvelope .idm (m.sent packed) = .ok () :=
    checkEnvelope_withChecksum h.length_body
  have hbody : (m.body packed).length = 90 := Nat.succ.inj (Nat.succ.inj h.length_body)
  have hpreamble : UInt32.ofNat (beField (m.sent packed) 0 4) = idmPreamble := word32_of_slice rfl
  have hid : UInt32.ofNat (beField (m.sent packed) 9 4) = m.ertId := word32_of_slice rfl
  have hlen : (m.header ++ m.payload.fixedPart ++ packed).length = 86 := h.length_eq
  have hoffset : slice (m.sent packed) 86 2 = beBytes 2 m.txTimeOffset.toNat := by
    rw [sent_eq_append, slice_append_right (by omega), hlen]
    rfl
  have hserial : slice (m.sent packed) 88 2 = beBytes 2 m.serialNumberCrc.toNat := by
    rw [sent_eq_append, slice_append_right (by omega), hlen]
    rfl
  have hcrc : UInt16.ofNat (beField (m.sent packed) 90 2) =
      Checksum.ccitt.checksum (slice (m.sent packed) 4 86) := by
    rw [sent, slice_withChecksum _ hbody.symm]
    exact word16_of_slice (slice_withChecksum_end _ hbody)
  have htype : UInt8.ofNat ((byteAt (m.sent packed) 8).toNat % 16) = m.typeOnAir := m.typeOnAir_eq
  rw [decode, hcheck]
  simp only [bind, Except.bind, pure, Except.pure, htype, hpayload, hpreamble, hid,
    word16_of_slice hoffset, word16_of_slice hserial, hcrc]
  rfl

theorem kind_of_decodePayload {payload : IdmPayload} {t : UInt8}
    (h : decodePayload raw t = .ok payload) :
    payload.kind = if t = idm18ErtType then .idm18 else .idm := by
  rw [decodePayload] at h
  split_ifs at h ⊢
  · obtain ⟨_, -, h⟩ := bind_eq_ok h
    cases h
    rfl
  · obtain ⟨_, -, h⟩ := bind_eq_ok h
    cases h
    rfl

/-- The meter type says which layout the payload has. -/
def SelfDescribing (m : Idm) : Prop :=
  m.kind = .idm18 ∨ m.kind = .idm ∧ m.ertType.toNat % 16 ≠ 8

theorem Laid.decodePayload_sent (h : m.Laid packed) (hself : m.SelfDescribing) :
    decodePayload (m.sent packed) m.typeOnAir = .ok m.payload.onAir := by
  cases hm : m.payload with
  | standard data =>
    have hstandard : m.typeOnAir = m.ertType % 16 := by rw [typeOnAir, hm]
    have htype : m.ertType % 16 ≠ idm18ErtType := by
      rw [SelfDescribing, kind, hm] at hself
      rcases hself with hself | ⟨-, hself⟩
      · cases hself
      · intro heq
        exact hself (congrArg UInt8.toNat heq)
    rw [← hm, hstandard]
    exact h.decodePayload_standard hm htype
  | x18 data =>
    have hx18 : m.typeOnAir = idm18ErtType := by rw [typeOnAir, hm]
    rw [← hm, hx18]
    exact h.decodePayload_x18 hm

theorem kind_typeOnAir (m : Idm) :
    (if m.typeOnAir = idm18ErtType then Kind.idm18 else .idm) = m.kind ↔
      ¬(m.kind = .idm ∧ m.ertType.toNat % 16 = 8) := by
  rw [typeOnAir, kind]
  cases m.payload with
  | x18 data => simp [IdmPayload.kind]
  | standard data =>
    have htype : m.ertType % 16 = idm18ErtType ↔ m.ertType.toNat % 16 = 8 := UInt8.toNat_inj.symm
    rw [← htype]
    by_cases h : m.ertType % 16 = idm18ErtType <;> simp [IdmPayload.kind, h]

theorem decode_encode (m : Idm) :
    ∃ raw m', m.encode = .ok raw ∧ decode raw = .ok m' ∧
      (m.SelfDescribing → m' = m.onAir raw) ∧
      (m'.kind = m.kind ↔ ¬(m.kind = .idm ∧ m.ertType.toNat % 16 = 8)) := by
  obtain ⟨packed, hlaid, hencode⟩ := m.encode_eq
  obtain ⟨payload, hpayload⟩ := decodePayload_ok (Nat.le_of_eq hlaid.length_sent.symm) m.typeOnAir
  refine ⟨m.sent packed, _, hencode, hlaid.decode_sent hpayload, fun hself => ?_, ?_⟩
  · -- the layout is the one that was sent, so its payload is what was found
    have hsame := hpayload.symm.trans (hlaid.decodePayload_sent hself)
    cases hsame
    rfl
  · rw [← m.kind_typeOnAir, ← kind_of_decodePayload hpayload]
    rfl

end Idm

/-- Decoding undoes encoding up to what is not sent: a record is received as `onAir` says, and in the
layout in which it was sent unless it is an IDM in the standard layout whose meter type is 8 in the
four bits that are sent. -/
theorem Record.decode_of_encode :
    (∀ m : Scm, Scm.decode m.encode = .ok m.onAir) ∧
    (∀ m : ScmPlus, ScmPlus.decode m.encode = .ok m.onAir) ∧
    ∀ m : Idm, ∃ raw m', m.encode = .ok raw ∧ Idm.decode raw = .ok m' ∧
      (m.kind = .idm18 ∨ m.kind = .idm ∧ m.ertType.toNat % 16 ≠ 8 → m' = m.onAir raw) ∧
      (m'.kind = m.kind ↔ ¬(m.kind = .idm ∧ m.ertType.toNat % 16 = 8)) :=
  ⟨Scm.decode_encode, ScmPlus.decode_encode, Idm.decode_encode⟩

end MeterRadio
