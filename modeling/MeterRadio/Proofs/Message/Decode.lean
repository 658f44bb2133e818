import MeterRadio.Message.Record
import Mathlib.Tactic.Common

/-!
# What decoding looks at

Decoding looks at the bytes of the message and at nothing behind them (`Record.decode_take`), and the
checks of length and checksum are the only ones that can fail: no field of a message lies outside it
(`Record.decode_ok`).
-/

namespace MeterRadio

variable {raw : Bytes} {kind : Kind} {pos len n size width : Nat}

/-! ## Steps that may fail -/

section Steps

variable {α β : Type} {x : Except DecodeError α} {b : β} {e : DecodeError}

theorem bind_eq_ok {f : α → Except DecodeError β} (h : x >>= f = .ok b) :
    ∃ a, x = .ok a ∧ f a = .ok b := by
  cases x with
  | error e => cases h
  | ok a => exact ⟨a, rfl, h⟩

theorem map_eq_ok {f : α → β} (h : f <$> x = .ok b) : ∃ a, x = .ok a ∧ f a = b := by
  cases x with
  | error e => cases h
  | ok a => exact ⟨a, rfl, Except.ok.inj h⟩

/-- What has a result has passed its first step. -/
theorem eq_ok_of_map_bind {check : Except DecodeError Unit} {f : Unit → Except DecodeError α}
    {g : α → β} (h : g <$> (check >>= f) = .ok b) : check = .ok () := by
  obtain ⟨_, hsteps, -⟩ := map_eq_ok h
  obtain ⟨_, hcheck, -⟩ := bind_eq_ok hsteps
  exact hcheck

end Steps

/-! ## Reading from the leading bytes -/

theorem slice_take (raw : Bytes) (h : pos + len ≤ n) :
    slice (raw.take n) pos len = slice raw pos len := by
  rw [slice, slice, List.drop_take, List.take_take, Nat.min_eq_left (by omega)]

theorem byteAt_take (raw : Bytes) (h : pos < n) : byteAt (raw.take n) pos = byteAt raw pos := by
  rw [byteAt, byteAt, List.getD_eq_getElem?_getD, List.getD_eq_getElem?_getD,
    List.getElem?_take_of_lt h]

theorem beField_take (raw : Bytes) (h : pos + len ≤ n) :
    beField (raw.take n) pos len = beField raw pos len := by
  rw [beField, beField, slice_take raw h]

theorem byteFields_take (raw : Bytes) (h : pos + len ≤ n) :
    byteFields (raw.take n) pos len = byteFields raw pos len := by
  unfold byteFields
  congr 1
  funext i
  exact byteAt_take raw (by omega)

theorem fieldValue_take (raw : Bytes) (hlen : 0 < len) (h : pos + len ≤ 8 * n) :
    fieldValue (raw.take n) pos len = fieldValue raw pos len := by
  have hbytes : fieldBytes pos len = (pos + len - 1) / 8 + 1 - pos / 8 := rfl
  have hlast : pos / 8 + fieldBytes pos len ≤ n := by omega
  rw [fieldValue, fieldWord, slice_take raw hlast, fieldValue, fieldWord]

theorem readField_take (hlen : 0 < len) (hmax : len ≤ maxFieldBits) (h : pos + len ≤ 8 * n)
    (hn : n ≤ raw.length) : readField (raw.take n) pos len = readField raw pos len := by
  have htake : (raw.take n).length = n := List.length_take_of_le hn
  have hfits : FieldFits raw pos len := ⟨hlen, hmax, by omega⟩
  have hfits' : FieldFits (raw.take n) pos len := ⟨hlen, hmax, by rw [htake]; exact h⟩
  rw [readField, readField, if_pos hfits, if_pos hfits', fieldValue_take raw hlen h]

theorem readPacked_take (hwidth : 0 < width) (hmax : width ≤ maxFieldBits)
    (h : pos + len * width ≤ 8 * n) (hn : n ≤ raw.length) :
    readPacked (raw.take n) pos width len = readPacked raw pos width len := by
  induction len with
  | zero => rfl
  | succ len ih =>
    rw [Nat.succ_mul] at h
    rw [readPacked, readPacked, ih (by omega), readField_take hwidth hmax (by omega) hn]

theorem readPacked_ok (hwidth : 0 < width) (hmax : width ≤ maxFieldBits)
    (h : pos + len * width ≤ 8 * raw.length) : ∃ values, readPacked raw pos width len = .ok values := by
  induction len with
  | zero => exact ⟨#v[], rfl⟩
  | succ len ih =>
    rw [Nat.succ_mul] at h
    obtain ⟨values, hvalues⟩ := ih (by omega)
    have hfits : FieldFits raw (pos + len * width) width := ⟨hwidth, hmax, by omega⟩
    refine ⟨values.push (fieldValue raw (pos + len * width) width).toUInt16, ?_⟩
    rw [readPacked, hvalues, readField, if_pos hfits]
    rfl

/-- The first bit behind the intervals. -/
def IntervalLayout.stop (l : IntervalLayout) : Nat :=
  l.start + l.count * l.width

/-- The intervals of a layout lie inside an IDM. -/
structure IntervalLayout.Inside (l : IntervalLayout) : Prop where
  width_pos : 0 < l.width
  width_le : l.width ≤ maxFieldBits
  end_le : l.start + l.count * l.width ≤ 8 * idmTrailerStart

theorem inside_standardIntervals : standardIntervals.Inside :=
  ⟨by decide, by decide, by decide⟩

theorem inside_x18Intervals : x18Intervals.Inside :=
  ⟨by decide, by decide, by decide⟩

section Intervals

variable {l : IntervalLayout}

theorem readIntervals_take (hl : l.Inside) (hn : Kind.idm.rawSize ≤ raw.length) :
    readIntervals (raw.take Kind.idm.rawSize) l = readIntervals raw l := by
  have hend := hl.end_le
  have hsize : 8 * idmTrailerStart ≤ 8 * Kind.idm.rawSize := by decide
  rw [readIntervals, readIntervals,
    readPacked_take hl.width_pos hl.width_le (Nat.le_trans hend hsize) hn]

theorem readIntervals_ok (hl : l.Inside) (hn : Kind.idm.rawSize ≤ raw.length) :
    ∃ values, readIntervals raw l = .ok values := by
  have hend := hl.end_le
  have hsize : 8 * idmTrailerStart ≤ 8 * Kind.idm.rawSize := by decide
  have hend' : l.start + l.count * l.width ≤ 8 * raw.length := by omega
  obtain ⟨values, hvalues⟩ := readPacked_ok hl.width_pos hl.width_le hend'
  refine ⟨values, ?_⟩
  rw [readIntervals, hvalues]
  rfl

end Intervals

/-! ## The checks -/

theorem Kind.firstCovered_add_two_le (kind : Kind) : kind.firstCovered + 2 ≤ kind.rawSize := by
  cases kind <;> decide

theorem length_covered (h : kind.rawSize ≤ raw.length) :
    (covered kind raw).length = kind.rawSize - kind.firstCovered := by
  have hfirst := kind.firstCovered_add_two_le
  rw [covered, slice, List.length_take, List.length_drop]
  omega

theorem checkEnvelope_eq_ok_iff : checkEnvelope kind raw = .ok () ↔
    kind.rawSize ≤ raw.length ∧ kind.code.register (covered kind raw) = kind.code.residual := by
  rw [checkEnvelope]
  by_cases hlen : raw.length < kind.rawSize
  · rw [if_pos hlen]
    constructor
    · intro h
      cases h
    · rintro ⟨hle, -⟩
      omega
  · rw [if_neg hlen]
    by_cases hres : kind.code.register (covered kind raw) = kind.code.residual
    · simp [hres, Nat.le_of_not_lt hlen]
    · simp [hres]

theorem checkEnvelope_take (h : kind.rawSize ≤ raw.length) :
    checkEnvelope kind (raw.take kind.rawSize) = checkEnvelope kind raw := by
  have htake : (raw.take kind.rawSize).length = kind.rawSize := List.length_take_of_le h
  have hfirst : kind.firstCovered + (kind.rawSize - kind.firstCovered) ≤ kind.rawSize := by
    cases kind <;> decide
  have hcovered : covered kind (raw.take kind.rawSize) = covered kind raw := by
    rw [covered, covered, slice_take raw hfirst]
  rw [checkEnvelope, checkEnvelope, htake, if_neg (Nat.lt_irrefl _), if_neg (Nat.not_lt.mpr h),
    hcovered]

theorem covered_format (kind : Kind) (raw : Bytes) : covered kind.format raw = covered kind raw := by
  rw [covered, kind.rawSize_format, kind.firstCovered_format, covered]

theorem checkEnvelope_truncated (h : raw.length < kind.rawSize) :
    checkEnvelope kind.format raw = .error (.truncated kind.format kind.rawSize raw.length) := by
  rw [checkEnvelope, kind.rawSize_format, if_pos h]

theorem checkEnvelope_damaged (h : kind.rawSize ≤ raw.length)
    (hres : kind.code.register (covered kind raw) ≠ kind.code.residual) :
    checkEnvelope kind.format raw =
      .error (.checksum kind.format (kind.code.register (covered kind raw))) := by
  rw [checkEnvelope, kind.rawSize_format, if_neg (Nat.not_lt.mpr h), kind.code_format, covered_format]
  exact if_neg hres

/-! ## Decoding -/

namespace Idm

theorem decodePayload_take (h : Kind.idm.rawSize ≤ raw.length) (ertType : UInt8) :
    decodePayload (raw.take Kind.idm.rawSize) ertType = decodePayload raw ertType := by
  rw [decodePayload, decodePayload, readIntervals_take inside_standardIntervals h,
    readIntervals_take inside_x18Intervals h]
  simp (disch := decide) only [byteAt_take, byteFields_take, beField_take]

theorem decodePayload_ok (h : Kind.idm.rawSize ≤ raw.length) (ertType : UInt8) :
    ∃ payload, decodePayload raw ertType = .ok payload := by
  rw [decodePayload]
  split_ifs
  · obtain ⟨values, hvalues⟩ := readIntervals_ok inside_x18Intervals h
    rw [hvalues]
    exact ⟨_, rfl⟩
  · obtain ⟨values, hvalues⟩ := readIntervals_ok inside_standardIntervals h
    rw [hvalues]
    exact ⟨_, rfl⟩

theorem decode_ok (h : checkEnvelope .idm raw = .ok ()) : ∃ m, decode raw = .ok m := by
  obtain ⟨payload, hpayload⟩ := decodePayload_ok (checkEnvelope_eq_ok_iff.mp h).1
    (UInt8.ofNat ((byteAt raw 8).toNat % 16))
  rw [decode, h]
  simp only [bind, Except.bind, hpayload]
  exact ⟨_, rfl⟩

theorem preamble_of_decode {m : Idm} (h : decode raw = .ok m) :
    m.preamble = UInt32.ofNat (beField raw 0 4) := by
  obtain ⟨-, -, h⟩ := bind_eq_ok h
  obtain ⟨payload, -, h⟩ := bind_eq_ok h
  exact congrArg Idm.preamble (Except.ok.inj h).symm

end Idm

theorem Scm.fields_of_decode {m : Scm} (h : Scm.decode raw = .ok m) : Scm.fields raw = m := by
  obtain ⟨-, -, h⟩ := bind_eq_ok h
  exact Except.ok.inj h

namespace ScmPlus

theorem fields_of_decode {m : ScmPlus} (h : decode raw = .ok m) : fields raw = m := by
  obtain ⟨-, -, h⟩ := bind_eq_ok h
  exact Except.ok.inj h

theorem frameSync_of_decode {m : ScmPlus} (h : decode raw = .ok m) :
    m.frameSync = UInt16.ofNat (beField raw 0 2) :=
  congrArg frameSync (fields_of_decode h).symm

end ScmPlus

namespace Record

/-- Bytes behind a message are ignored. -/
theorem decode_take (h : kind.rawSize ≤ raw.length) :
    decode kind (raw.take kind.rawSize) = decode kind raw := by
  have hscm (h : Kind.scm.rawSize ≤ raw.length) :
      Scm.decode (raw.take Kind.scm.rawSize) = Scm.decode raw := by
    rw [Scm.decode, Scm.decode, checkEnvelope_take h, Scm.fields, Scm.fields]
    simp (disch := decide) only [byteAt_take, beField_take]
  have hplus (h : Kind.scmPlus.rawSize ≤ raw.length) :
      ScmPlus.decode (raw.take Kind.scmPlus.rawSize) = ScmPlus.decode raw := by
    rw [ScmPlus.decode, ScmPlus.decode, checkEnvelope_take h, ScmPlus.fields, ScmPlus.fields]
    simp (disch := decide) only [byteAt_take, beField_take]
  have hidm (h : Kind.idm.rawSize ≤ raw.length) :
      Idm.decode (raw.take Kind.idm.rawSize) = Idm.decode raw := by
    rw [Idm.decode, Idm.decode, checkEnvelope_take h]
    simp (disch := decide) only [Idm.decodePayload_take h, byteAt_take, beField_take]
  cases kind with
  | scm => exact congrArg (scm <$> ·) (hscm h)
  | scmPlus => exact congrArg (scmPlus <$> ·) (hplus h)
  | idm => exact congrArg (idm <$> ·) (hidm h)
  | idm18 => exact congrArg (idm <$> ·) (hidm h)

/-- A message that passes the checks is decoded. -/
theorem decode_ok (h : checkEnvelope kind raw = .ok ()) : ∃ record, decode kind raw = .ok record := by
  cases kind with
  | scm =>
    rw [decode, Scm.decode, h]
    exact ⟨_, rfl⟩
  | scmPlus =>
    rw [decode, ScmPlus.decode, h]
    exact ⟨_, rfl⟩
  | idm =>
    obtain ⟨m, hm⟩ := Idm.decode_ok h
    rw [decode, hm]
    exact ⟨_, rfl⟩
  | idm18 =>
    -- both layouts have the same envelope
    have hchecks := checkEnvelope_eq_ok_iff.mp h
    obtain ⟨m, hm⟩ := Idm.decode_ok (checkEnvelope_eq_ok_iff.mpr hchecks)
    rw [decode, hm]
    exact ⟨_, rfl⟩

/-- Only a message that passes the checks is decoded. -/
theorem checkEnvelope_of_decode {record : Record} (h : decode kind raw = .ok record) :
    checkEnvelope kind raw = .ok () := by
  cases kind with
  | scm => exact eq_ok_of_map_bind h
  | scmPlus => exact eq_ok_of_map_bind h
  | idm => exact eq_ok_of_map_bind h
  | idm18 =>
    -- both layouts have the same envelope
    have hidm := checkEnvelope_eq_ok_iff.mp (eq_ok_of_map_bind h : checkEnvelope .idm raw = .ok ())
    exact checkEnvelope_eq_ok_iff.mpr hidm

/-- A message that fails the checks of its format is rejected for that reason. -/
theorem decode_eq_error {e : DecodeError} (h : checkEnvelope kind.format raw = .error e) :
    decode kind raw = .error e := by
  cases kind with
  | scm =>
    rw [Kind.format] at h
    rw [decode, Scm.decode, h]
    rfl
  | scmPlus =>
    rw [Kind.format] at h
    rw [decode, ScmPlus.decode, h]
    rfl
  | idm =>
    rw [Kind.format] at h
    rw [decode, Idm.decode, h]
    rfl
  | idm18 =>
    rw [Kind.format] at h
    rw [decode, Idm.decode, h]
    rfl

theorem decode_truncated (h : raw.length < kind.rawSize) :
    decode kind raw = .error (.truncated kind.format kind.rawSize raw.length) :=
  decode_eq_error (checkEnvelope_truncated h)

theorem decode_damaged (h : kind.rawSize ≤ raw.length)
    (hres : kind.code.register (covered kind raw) ≠ kind.code.residual) :
    decode kind raw = .error (.checksum kind.format (kind.code.register (covered kind raw))) :=
  decode_eq_error (checkEnvelope_damaged h hres)

/-- Enough bytes can only fail by their checksum. -/
theorem decode_error {e : DecodeError} (h : kind.rawSize ≤ raw.length)
    (he : decode kind raw = .error e) : ∃ residual, e = .checksum kind.format residual := by
  by_cases hres : kind.code.register (covered kind raw) = kind.code.residual
  · obtain ⟨record, hrecord⟩ := decode_ok (checkEnvelope_eq_ok_iff.mpr ⟨h, hres⟩)
    cases he.symm.trans hrecord
  · exact ⟨_, Except.error.inj (he.symm.trans (decode_damaged h hres))⟩

theorem sentAs_of_decode {record : Record} (h : decode kind raw = .ok record) :
    record.sentAs = kind.format := by
  cases kind with
  | scm =>
    obtain ⟨m, -, rfl⟩ := map_eq_ok h
    rfl
  | scmPlus =>
    obtain ⟨m, -, rfl⟩ := map_eq_ok h
    rfl
  | idm =>
    obtain ⟨m, -, rfl⟩ := map_eq_ok h
    rfl
  | idm18 =>
    obtain ⟨m, -, rfl⟩ := map_eq_ok h
    rfl

end Record

end MeterRadio
