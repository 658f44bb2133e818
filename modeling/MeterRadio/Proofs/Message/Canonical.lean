import MeterRadio.Message.OnAir
import MeterRadio.Proofs.Message.RoundTrip

/-!
# Encoding what was decoded

A record holds the bits that a message carries behind its preamble, so encoding it again gives the
message back if and only if the preamble and the unused bits of the message are those of the format
(`Record.encode_of_decode`). The checksum needs no condition of its own: the one that holds is the one
that encoding computes (`withChecksum_eq_iff`).
-/

namespace MeterRadio

open Checksum (Code)

variable {raw raw' d : Bytes} {kind : Kind} {i : Nat}

/-! ## The checksum -/

/-- A message that passes the checks ends in the checksum of its body. -/
theorem withChecksum_eq_iff (hcheck : checkEnvelope kind raw = .ok ())
    (hraw : raw.length = kind.rawSize) (hd : d.length + 2 = kind.rawSize) :
    kind.code.withChecksum kind.firstCovered d = raw ↔ d = raw.take (kind.rawSize - 2) := by
  constructor
  · intro h
    rw [← h, Code.withChecksum, ← hd, Nat.add_sub_cancel, List.take_left]
  · intro h
    have hfirst := kind.firstCovered_add_two_le
    have hfront : slice raw 0 d.length = d := by
      have hsize : kind.rawSize - 2 = d.length := by omega
      rw [slice_zero_eq_take, ← hsize, ← h]
    have hsplit : d ++ slice raw d.length 2 = raw := by
      have hglue := slice_append_slice raw 0 d.length 2
      rwa [hfront, Nat.zero_add, slice_self (by omega)] at hglue
    have hword : beBytes 2 (UInt16.ofNat (beField raw d.length 2)).toNat = slice raw d.length 2 :=
      beBytes_word16 (by omega)
    have hcovered : covered kind raw = d.drop kind.firstCovered ++ slice raw d.length 2 := by
      rw [covered, slice, List.take_of_length_le (by rw [List.length_drop]; omega),
        ← List.drop_append_of_le_length (by omega), hsplit]
    have hresidual := (checkEnvelope_eq_ok_iff.mp hcheck).2
    rw [hcovered, ← hword] at hresidual
    rw [Code.withChecksum, ← Code.eq_checksum kind.sound_code hresidual, hword, hsplit]

/-! ## Messages with one reading -/

namespace Scm

theorem body_fields (h : raw.length = Kind.scm.rawSize) :
    (fields raw).body =
      [0xF9, 0x53, UInt8.ofNat (2 * ((byteAt raw 2).toNat / 2 % 4))] ++ slice raw 3 7 := by
  have hlen : raw.length = 12 := h
  have hlow : beField raw 7 3 < 2 ^ 24 := by
    have hlt := beNat_lt (slice raw 7 3)
    rwa [length_slice (by omega)] at hlt
  have hid : (fields raw).id.toNat = (byteAt raw 2).toNat / 2 % 4 * 0x1000000 + beField raw 7 3 := by
    rw [fields, UInt32.toNat_ofNat']
    omega
  have hhigh : (fields raw).id.toNat / 0x1000000 % 4 = (byteAt raw 2).toNat / 2 % 4 := by
    omega
  have hlowId : beBytes 3 (fields raw).id.toNat = slice raw 7 3 := by
    have hmod : (fields raw).id.toNat % 256 ^ 3 = beField raw 7 3 := by omega
    rw [← beBytes_mod (Nat.dvd_refl (256 ^ 3)), hmod, beBytes_beField (by omega)]
  have hflags : UInt8.ofNat (64 * ((fields raw).tamperPhy.toNat % 4)
      + 4 * ((fields raw).ertType.toNat % 16) + (fields raw).tamperEnc.toNat % 4) = byteAt raw 3 := by
    apply UInt8.toNat_inj.mp
    have hlt := (byteAt raw 3).toNat_lt
    simp only [fields, UInt8.toNat_ofNat']
    omega
  have hconsumption : beBytes 3 (fields raw).consumption.toNat = slice raw 4 3 :=
    beBytes_word32 (by decide) (by omega)
  have hrest : [byteAt raw 3] ++ slice raw 4 3 ++ slice raw 7 3 = slice raw 3 7 := by
    rw [singleton_byteAt (by omega), slice_append_slice, slice_append_slice]
  rw [body, hhigh, hlowId, hflags, hconsumption, ← hrest]
  rfl

theorem encode_fields_eq_iff (hcheck : checkEnvelope .scm raw = .ok ())
    (h : raw.length = Kind.scm.rawSize) : (fields raw).encode = raw ↔ Canonical .scm raw := by
  have hlen : raw.length = 12 := h
  have hfront : slice raw 0 3 = [byteAt raw 0, byteAt raw 1, byteAt raw 2] := by
    rw [slice_succ _ (by omega), slice_succ _ (by omega), slice_succ _ (by omega)]
    rfl
  have hnumber : beField raw 0 3 =
      256 * (256 * (byteAt raw 0).toNat + (byteAt raw 1).toNat) + (byteAt raw 2).toNat := by
    rw [beField, hfront]
    simp [beNat]
  have htake : raw.take (Kind.scm.rawSize - 2) = slice raw 0 3 ++ slice raw 3 7 := by
    rw [slice_append_slice, slice_zero_eq_take]
    rfl
  have h0 := (byteAt raw 0).toNat_lt
  have h1 := (byteAt raw 1).toNat_lt
  have h2 := (byteAt raw 2).toNat_lt
  have hpreamble : scmPreamble.toNat = 0xF95300 := rfl
  have hbody : (fields raw).body.length + 2 = Kind.scm.rawSize := by simp [body, Kind.rawSize]
  refine (withChecksum_eq_iff hcheck h hbody).trans ?_
  rw [htake, body_fields h, List.append_left_inj, hfront, Canonical, hnumber, hpreamble]
  simp only [List.cons.injEq, ← UInt8.toNat_inj, UInt8.toNat_ofNat', UInt8.reduceToNat, and_true]
  omega

theorem bit_eq_of_fields_eq (h : raw.length = Kind.scm.rawSize) (h' : raw'.length = Kind.scm.rawSize)
    (hfields : fields raw = fields raw') (hi : ¬Kind.scm.Lost i) :
    Bytes.bit raw i = Bytes.bit raw' i := by
  have hlen : raw.length = 12 := h
  have hlen' : raw'.length = 12 := h'
  have hbody := body_fields h
  rw [hfields, body_fields h'] at hbody
  obtain ⟨hhead, hrest⟩ := List.append_inj hbody.symm rfl
  have hcrc : slice raw 10 2 = slice raw' 10 2 := by
    have hcrc := congrArg (fun m => beBytes 2 m.crc.toNat) hfields
    rwa [fields, fields, beBytes_word16 (by omega), beBytes_word16 (by omega)] at hcrc
  have hhigh : (byteAt raw 2).toNat / 2 % 4 = (byteAt raw' 2).toNat / 2 % 4 := by
    simp only [List.cons.injEq, ← UInt8.toNat_inj, UInt8.toNat_ofNat', and_true, true_and] at hhead
    omega
  have hbit (j : Nat) (hj : j = 1 ∨ j = 2) :
      (byteAt raw 2).toNat.testBit j = (byteAt raw' 2).toNat.testBit j := by
    rw [Nat.testBit_eq_decide_div_mod_eq, Nat.testBit_eq_decide_div_mod_eq]
    congr 2
    rcases hj with rfl | rfl <;> omega
  rw [Kind.Lost] at hi
  rcases (by omega : i = 21 ∨ i = 22 ∨ 24 ≤ i ∧ i < 80 ∨ 80 ≤ i ∧ i < 96 ∨ 96 ≤ i) with
    rfl | rfl | hi | hi | hi
  · exact hbit 2 (.inr rfl)
  · exact hbit 1 (.inl rfl)
  · exact bit_eq_of_slice_eq hrest hi.1 hi.2
  · exact bit_eq_of_slice_eq hcrc hi.1 hi.2
  · rw [Bytes.bit_eq_false (by omega), Bytes.bit_eq_false (by omega)]

end Scm

namespace ScmPlus

theorem body_fields (h : raw.length = Kind.scmPlus.rawSize) :
    (fields raw).body = beBytes 2 scmPlusSync.toNat ++ slice raw 2 12 := by
  have hlen : raw.length = 16 := h
  have hid : beBytes 4 (fields raw).endpointId.toNat = slice raw 4 4 :=
    beBytes_word32 (by decide) (by omega)
  have hconsumption : beBytes 4 (fields raw).consumption.toNat = slice raw 8 4 :=
    beBytes_word32 (by decide) (by omega)
  have htamper : beBytes 2 (fields raw).tamper.toNat = slice raw 12 2 := beBytes_word16 (by omega)
  have hrest : [byteAt raw 2] ++ [byteAt raw 3] ++ slice raw 4 4 ++ slice raw 8 4 ++ slice raw 12 2 =
      slice raw 2 12 := by
    rw [singleton_byteAt (by omega), singleton_byteAt (by omega), slice_append_slice, slice_append_slice,
      slice_append_slice, slice_append_slice]
  rw [body, hid, hconsumption, htamper, ← hrest]
  simp only [List.append_assoc]
  rfl

theorem encode_fields_eq_iff (hcheck : checkEnvelope .scmPlus raw = .ok ())
    (h : raw.length = Kind.scmPlus.rawSize) :
    (fields raw).encode = raw ↔ Canonical .scmPlus raw := by
  have hlen : raw.length = 16 := h
  have htake : raw.take (Kind.scmPlus.rawSize - 2) = slice raw 0 2 ++ slice raw 2 12 := by
    rw [slice_append_slice, slice_zero_eq_take]
    rfl
  have hbody : (fields raw).body.length + 2 = Kind.scmPlus.rawSize := by simp [body, Kind.rawSize]
  refine (withChecksum_eq_iff hcheck h hbody).trans ?_
  rw [htake, body_fields h, List.append_left_inj, beBytes_eq_slice_iff (by omega) (by decide)]
  rfl

theorem bit_eq_of_fields_eq (h : raw.length = Kind.scmPlus.rawSize)
    (h' : raw'.length = Kind.scmPlus.rawSize) (hfields : fields raw = fields raw') :
    Bytes.bit raw i = Bytes.bit raw' i := by
  have hlen : raw.length = 16 := h
  have hlen' : raw'.length = 16 := h'
  have hbody := body_fields h
  rw [hfields, body_fields h', List.append_right_inj] at hbody
  have hsync : slice raw 0 2 = slice raw' 0 2 := by
    have hsync := congrArg (fun m => beBytes 2 m.frameSync.toNat) hfields
    rwa [fields, fields, beBytes_word16 (by omega), beBytes_word16 (by omega)] at hsync
  have hcrc : slice raw 14 2 = slice raw' 14 2 := by
    have hcrc := congrArg (fun m => beBytes 2 m.crc.toNat) hfields
    rwa [fields, fields, beBytes_word16 (by omega), beBytes_word16 (by omega)] at hcrc
  rcases (by omega : i < 16 ∨ 16 ≤ i ∧ i < 112 ∨ 112 ≤ i ∧ i < 128 ∨ 128 ≤ i) with hi | hi | hi | hi
  · exact bit_eq_of_slice_eq hsync (Nat.zero_le _) hi
  · exact bit_eq_of_slice_eq hbody.symm hi.1 hi.2
  · exact bit_eq_of_slice_eq hcrc hi.1 hi.2
  · rw [Bytes.bit_eq_false (by omega), Bytes.bit_eq_false (by omega)]

end ScmPlus

/-! ## Messages with intervals -/

namespace Idm

variable {m : Idm} {packed : Bytes}

theorem stop_standard (data : IdmStandard) : (IdmPayload.standard data).intervalLayout.stop = 687 :=
  (by decide : standardIntervals.stop = 687)

theorem stop_x18 (data : IdmX18) : (IdmPayload.x18 data).intervalLayout.stop = 634 :=
  (by decide : x18Intervals.stop = 634)

/-- The payload is what the bytes hold in its layout. -/
theorem payload_of_decodePayload {payload : IdmPayload} {t : UInt8}
    (h : raw.length = Kind.idm.rawSize) (hpayload : decodePayload raw t = .ok payload) :
    payload.fixedPart = slice raw 14 payload.fixedPart.length ∧
      Packs raw payload.intervalLayout.start payload.intervalLayout.width payload.intervals := by
  have hlen : raw.length = 92 := h
  rw [decodePayload] at hpayload
  split_ifs at hpayload
  · obtain ⟨values, hvalues, hpayload⟩ := bind_eq_ok hpayload
    cases hpayload
    refine ⟨?_, (packs_of_readPacked (by decide) (readPacked_of_readIntervals hvalues)).1⟩
    simp only [IdmPayload.fixedPart]
    rw [toList_byteFields (by omega), beBytes_word32 (by decide) (by omega),
      beBytes_word32 (by decide) (by omega), beBytes_word32 (by decide) (by omega),
      beBytes_word32 (by decide) (by omega), slice_append_slice, slice_append_slice,
      slice_append_slice, slice_append_slice, length_slice (by omega)]
  · obtain ⟨values, hvalues, hpayload⟩ := bind_eq_ok hpayload
    cases hpayload
    refine ⟨?_, (packs_of_readPacked (by decide) (readPacked_of_readIntervals hvalues)).1⟩
    simp only [IdmPayload.fixedPart]
    rw [singleton_byteAt (by omega), toList_byteFields (by omega), beBytes_word16 (by omega),
      toList_byteFields (by omega), beBytes_word32 (by decide) (by omega), slice_append_slice,
      slice_append_slice, slice_append_slice, slice_append_slice, length_slice (by omega)]

/-- Where the parts of a record stand in the message that it was read from. -/
structure ReadFrom (m : Idm) (raw : Bytes) : Prop where
  length_eq : raw.length = 92
  checks : checkEnvelope .idm raw = .ok ()
  preamble : slice raw 0 4 = beBytes 4 m.preamble.toNat
  ertType : m.ertType = UInt8.ofNat ((byteAt raw 8).toNat % 16)
  kind_eq : m.kind = if m.ertType = idm18ErtType then .idm18 else .idm
  header : m.header = beBytes 4 idmPreamble.toNat ++ slice raw 4 4 ++ [m.typeByte] ++ slice raw 9 5
  fixedPart : m.payload.fixedPart = slice raw 14 m.payload.fixedPart.length
  packs : Packs raw m.payload.intervalLayout.start m.payload.intervalLayout.width m.payload.intervals
  trailer : beBytes 2 m.txTimeOffset.toNat ++ beBytes 2 m.serialNumberCrc.toNat = slice raw 86 4
  crc : slice raw 90 2 = beBytes 2 m.packetCrc.toNat

theorem readFrom_of_decode (h : raw.length = Kind.idm.rawSize) (hm : decode raw = .ok m) :
    m.ReadFrom raw := by
  have hlen : raw.length = 92 := h
  obtain ⟨_, hchecks, hm⟩ := bind_eq_ok hm
  obtain ⟨payload, hpayload, hm⟩ := bind_eq_ok hm
  cases hm
  obtain ⟨hfixed, hpacks⟩ := payload_of_decodePayload h hpayload
  refine ⟨hlen, hchecks, (beBytes_word32 (by decide) (by omega)).symm, rfl,
    kind_of_decodePayload hpayload, ?_, hfixed, hpacks, ?_, (beBytes_word16 (by omega)).symm⟩
  · have hfront : slice raw 4 4 = [byteAt raw 4, byteAt raw 5, byteAt raw 6, byteAt raw 7] := by
      rw [slice_succ _ (by omega), slice_succ _ (by omega), slice_succ _ (by omega),
        slice_succ _ (by omega)]
      rfl
    have hrest : slice raw 9 4 ++ [byteAt raw 13] = slice raw 9 5 := by
      rw [singleton_byteAt (by omega), slice_append_slice]
    rw [Idm.header, beBytes_word32 (by decide) (by omega), hfront, ← hrest]
    simp only [List.append_assoc]
    rfl
  · rw [beBytes_word16 (by omega), beBytes_word16 (by omega), slice_append_slice]

/-- The bits that are sent of the record are those that it was read from, but for the preamble, the
byte of the meter type and what is not used behind the intervals. -/
theorem ReadFrom.bit_sent (h : m.ReadFrom raw) (hlaid : m.Laid packed) (hstart : 32 ≤ i)
    (hend : i < 720) (htype : ¬(64 ≤ i ∧ i < 72))
    (hused : ¬(m.payload.intervalLayout.stop ≤ i ∧ i < 688)) :
    Bytes.bit (m.sent packed) i = Bytes.bit raw i := by
  have hlen := h.length_eq
  have hfour : (slice raw 4 4).length = 4 := length_slice (by omega)
  have hfive : (slice raw 9 5).length = 5 := length_slice (by omega)
  have hfixedLength := length_fixedPart m.payload
  rcases (by omega : i < 64 ∨ 72 ≤ i ∧ i < 112 ∨ 112 ≤ i ∧ i < m.payload.intervalLayout.start ∨
    m.payload.intervalLayout.start ≤ i ∧ i < m.payload.intervalLayout.stop ∨ 688 ≤ i) with
    hi | hi | hi | hi | hi
  · have hfront : slice (m.sent packed) 4 4 = slice raw 4 4 := by
      rw [sent_eq_append, h.header]
      simp (disch := simp [hfour]) [slice_append_left, slice_append_right, slice_self]
    exact bit_eq_of_slice_eq hfront hstart hi
  · have hrest : slice (m.sent packed) 9 5 = slice raw 9 5 := by
      rw [sent_eq_append, h.header]
      simp (disch := simp [hfour, hfive])
        [slice_append_left, slice_append_right, slice_self, slice_cons, hfour]
    exact bit_eq_of_slice_eq hrest hi.1 hi.2
  · have hfixed : slice (m.sent packed) 14 m.payload.fixedPart.length =
        slice raw 14 m.payload.fixedPart.length := by
      rw [m.slice_sent packed 0 (by omega), slice_self rfl, ← h.fixedPart]
    exact bit_eq_of_slice_eq hfixed hi.1 (by omega)
  · have hinside := (inside_intervalLayout m.payload).end_le
    have hcount := length_intervals m.payload
    rw [IntervalLayout.stop] at hi
    have htrailer : idmTrailerStart = 86 := rfl
    rw [hlaid.bit_sent (by omega)]
    exact hlaid.packs.bit_eq h.packs hi.1 (by rw [hcount]; exact hi.2)
  · have htrailer : slice (m.sent packed) 86 4 = slice raw 86 4 := by
      have hlaidOut : (m.header ++ m.payload.fixedPart ++ packed).length = 86 := hlaid.length_eq
      rw [sent_eq_append, slice_append_right (by omega), hlaidOut, slice_append_left (by simp),
        h.trailer]
      exact slice_self (length_slice (by omega))
    exact bit_eq_of_slice_eq htrailer hi hend

theorem slice_sent_preamble (m : Idm) (packed : Bytes) :
    slice (m.sent packed) 0 4 = beBytes 4 idmPreamble.toNat := rfl

theorem byteAt_sent_type (m : Idm) (packed : Bytes) : byteAt (m.sent packed) 8 = m.typeByte := rfl

theorem Laid.bit_sent_unused (h : m.Laid packed) (hstart : m.payload.intervalLayout.stop ≤ i)
    (hend : i < 688) : Bytes.bit (m.sent packed) i = false := by
  rw [h.bit_sent hend]
  exact h.unused i hstart

/-- A message is canonical if it has the preamble, the byte of the meter type and the zeros behind
the intervals that are sent of its record. -/
theorem ReadFrom.canonical_iff (h : m.ReadFrom raw) : Canonical m.kind raw ↔
    slice raw 0 4 = beBytes 4 idmPreamble.toNat ∧ byteAt raw 8 = m.typeByte ∧
      ∀ i, m.payload.intervalLayout.stop ≤ i → i < 688 → Bytes.bit raw i = false := by
  have hlen := h.length_eq
  have hpreamble : slice raw 0 4 = beBytes 4 idmPreamble.toNat ↔
      beField raw 0 4 = idmPreamble.toNat := by
    rw [← beBytes_eq_slice_iff (by omega) (by decide)]
    exact eq_comm
  have hkind := h.kind_eq
  have htype := h.ertType
  rw [hpreamble, kind, typeByte]
  cases hm : m.payload with
  | standard data =>
    have hlow : byteAt raw 8 = UInt8.ofNat (m.ertType.toNat % 16) ↔ (byteAt raw 8).toNat / 16 = 0 := by
      rw [htype, ← UInt8.toNat_inj]
      simp
      omega
    have hlast : Bytes.bit raw 687 = false ↔ (byteAt raw 85).toNat % 2 = 0 := by
      have hbit : Bytes.bit raw 687 = (byteAt raw 85).toNat.testBit 0 := rfl
      rw [hbit, Nat.testBit_zero, decide_eq_false_iff_not]
      omega
    have hunused : (∀ i, 687 ≤ i → i < 688 → Bytes.bit raw i = false) ↔ Bytes.bit raw 687 = false := by
      refine ⟨fun hall => hall 687 (Nat.le_refl _) (by decide), fun hone i hle hlt => ?_⟩
      obtain rfl : i = 687 := by omega
      exact hone
    dsimp only
    rw [hlow, stop_standard, hunused, hlast]
    rfl
  | x18 data =>
    dsimp only
    rw [stop_x18]
    simp only [IdmPayload.kind, Canonical, Nat.lt_succ_iff]

theorem ReadFrom.encode_eq_iff (h : m.ReadFrom raw) : m.encode = .ok raw ↔ Canonical m.kind raw := by
  have hlen := h.length_eq
  obtain ⟨packed, hlaid, hencode⟩ := m.encode_eq
  have hbody : (m.body packed).length = 90 := Nat.succ.inj (Nat.succ.inj hlaid.length_body)
  rw [hencode, h.canonical_iff, Except.ok.injEq]
  constructor
  · rintro rfl
    exact ⟨m.slice_sent_preamble packed, m.byteAt_sent_type packed,
      fun i hstart hend => hlaid.bit_sent_unused hstart hend⟩
  · rintro ⟨hpreamble, htype, hunused⟩
    -- the checksum follows from the body, and the body is compared bit by bit
    refine (withChecksum_eq_iff h.checks hlen hlaid.length_body).mpr ?_
    refine Bytes.ext_bit (by rw [List.length_take, hlen, hbody]; rfl) fun i hi => ?_
    have hsent : Bytes.bit (m.body packed) i = Bytes.bit (m.sent packed) i :=
      ((Bytes.bit_append _ _ i).trans (if_pos hi)).symm
    have hrange : i < 720 := by omega
    rw [Bytes.bit_take _ hrange, hsent]
    by_cases hfront : i < 32
    · exact bit_eq_of_slice_eq (hpreamble.trans (m.slice_sent_preamble packed).symm).symm
        (Nat.zero_le _) hfront
    · by_cases hbyte : 64 ≤ i ∧ i < 72
      · obtain ⟨j, rfl⟩ : ∃ j, i = 8 * 8 + j := ⟨i - 64, by omega⟩
        rw [bit_eq_byteBit _ _ (by omega), bit_eq_byteBit _ _ (by omega), m.byteAt_sent_type, htype]
      · by_cases hpad : m.payload.intervalLayout.stop ≤ i ∧ i < 688
        · rw [hlaid.bit_sent_unused hpad.1 hpad.2, hunused i hpad.1 hpad.2]
        · exact h.bit_sent hlaid (by omega) hrange hbyte hpad

/-- A record has all bits of the message but those that are not used. -/
theorem ReadFrom.bit_eq (h : m.ReadFrom raw) (h' : m.ReadFrom raw') (hi : ¬m.kind.Lost i) :
    Bytes.bit raw i = Bytes.bit raw' i := by
  have hlen := h.length_eq
  have hlen' := h'.length_eq
  obtain ⟨packed, hlaid, -⟩ := m.encode_eq
  have hpad : ¬(m.payload.intervalLayout.stop ≤ i ∧ i < 688) ∧ ¬(64 ≤ i ∧ i < 68) := by
    rw [kind] at hi
    cases hm : m.payload with
    | standard data =>
      have hstop := stop_standard data
      rw [hm] at hi
      simp only [IdmPayload.kind, Kind.Lost] at hi
      omega
    | x18 data =>
      have hstop := stop_x18 data
      rw [hm] at hi
      simp only [IdmPayload.kind, Kind.Lost] at hi
      omega
  rcases (by omega : i < 32 ∨ 68 ≤ i ∧ i < 72 ∨ 32 ≤ i ∧ i < 720 ∧ ¬(64 ≤ i ∧ i < 72) ∨
    720 ≤ i ∧ i < 736 ∨ 736 ≤ i) with hi | hi | hi | hi | hi
  · exact bit_eq_of_slice_eq (h.preamble.trans h'.preamble.symm) (Nat.zero_le _) hi
  · obtain ⟨j, rfl⟩ : ∃ j, i = 8 * 8 + j := ⟨i - 64, by omega⟩
    have hlow : (byteAt raw 8).toNat % 2 ^ 4 = (byteAt raw' 8).toNat % 2 ^ 4 := by
      have htype := congrArg UInt8.toNat (h.ertType.symm.trans h'.ertType)
      simp only [UInt8.toNat_ofNat'] at htype
      omega
    have hbit := congrArg (Nat.testBit · (7 - j)) hlow
    simp only [Nat.testBit_mod_two_pow, decide_eq_true (by omega : 7 - j < 4), Bool.true_and] at hbit
    rw [bit_eq_byteBit _ _ (by omega), bit_eq_byteBit _ _ (by omega), byteBit, byteBit, hbit]
  · rw [← h.bit_sent hlaid hi.1 hi.2.1 hi.2.2 hpad.1, ← h'.bit_sent hlaid hi.1 hi.2.1 hi.2.2 hpad.1]
  · exact bit_eq_of_slice_eq (h.crc.trans h'.crc.symm) hi.1 hi.2
  · rw [Bytes.bit_eq_false (by omega), Bytes.bit_eq_false (by omega)]

end Idm

/-! ## Any format -/

namespace Record

variable {record : Record}

/-- Encoding undoes decoding exactly on canonical messages, and of the other bits of a message none
is lost: two messages with the same record agree in them. -/
theorem encode_of_decode (hsize : raw.length = kind.rawSize)
    (hdecode : Record.decode kind raw = .ok record) :
    (record.encode = .ok raw ↔ Canonical record.kind raw) ∧
      ∀ raw', raw'.length = kind.rawSize → Record.decode kind raw' = .ok record →
        ∀ i, ¬record.kind.Lost i → Bytes.bit raw i = Bytes.bit raw' i := by
  have hidm (hsize : raw.length = Kind.idm.rawSize) (hdecode : idm <$> Idm.decode raw = .ok record) :
      (record.encode = .ok raw ↔ Canonical record.kind raw) ∧
        ∀ raw', raw'.length = Kind.idm.rawSize → idm <$> Idm.decode raw' = .ok record →
          ∀ i, ¬record.kind.Lost i → Bytes.bit raw i = Bytes.bit raw' i := by
    obtain ⟨m, hm, rfl⟩ := map_eq_ok hdecode
    have hread := Idm.readFrom_of_decode hsize hm
    refine ⟨hread.encode_eq_iff, fun raw' hsize' hdecode' i hi => ?_⟩
    obtain ⟨m', hm', hsame⟩ := map_eq_ok hdecode'
    cases hsame
    exact hread.bit_eq (Idm.readFrom_of_decode hsize' hm') hi
  cases kind with
  | scm =>
    have hchecks := checkEnvelope_of_decode hdecode
    obtain ⟨m, hm, rfl⟩ := map_eq_ok hdecode
    obtain rfl := Scm.fields_of_decode hm
    refine ⟨?_, fun raw' hsize' hdecode' i hi => ?_⟩
    · rw [encode, Except.ok.injEq]
      exact Scm.encode_fields_eq_iff hchecks hsize
    · obtain ⟨m', hm', hsame⟩ := map_eq_ok hdecode'
      have hfields := (Scm.fields_of_decode hm').trans (Record.scm.inj hsame)
      exact Scm.bit_eq_of_fields_eq hsize hsize' hfields.symm hi
  | scmPlus =>
    have hchecks := checkEnvelope_of_decode hdecode
    obtain ⟨m, hm, rfl⟩ := map_eq_ok hdecode
    obtain rfl := ScmPlus.fields_of_decode hm
    refine ⟨?_, fun raw' hsize' hdecode' i _ => ?_⟩
    · rw [encode, Except.ok.injEq]
      exact ScmPlus.encode_fields_eq_iff hchecks hsize
    · obtain ⟨m', hm', hsame⟩ := map_eq_ok hdecode'
      have hfields := (ScmPlus.fields_of_decode hm').trans (Record.scmPlus.inj hsame)
      exact ScmPlus.bit_eq_of_fields_eq hsize hsize' hfields.symm
  | idm => exact hidm hsize hdecode
  | idm18 => exact hidm hsize hdecode

theorem encode_of_decode_scm :
    let raw : Bytes := [0xF9, 0x53, 0x02, 0x4E, 0x00, 0x30, 0x39, 0xF5, 0x19, 0x09, 0x11, 0xC7]
    let record : Record := .scm
      { id := 32839945, ertType := 3, tamperPhy := 1, tamperEnc := 2, consumption := 12345,
        crc := 0x11C7 }
    raw.length = Kind.scm.rawSize ∧ Record.decode .scm raw = .ok record ∧
      (record.encode = .ok raw ↔ Canonical .scm raw) ∧
      ∀ raw', raw'.length = Kind.scm.rawSize → Record.decode .scm raw' = .ok record →
        ∀ i, ¬Kind.scm.Lost i → Bytes.bit raw i = Bytes.bit raw' i := by
  intro raw record
  have hsize : raw.length = Kind.scm.rawSize := rfl
  have hdecode : Record.decode .scm raw = .ok record := by decide +kernel
  exact ⟨hsize, hdecode, encode_of_decode hsize hdecode⟩

end Record

end MeterRadio
