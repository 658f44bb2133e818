import MeterRadio.Bits.Flip
import MeterRadio.Proofs.Checksum.Distance
import MeterRadio.Proofs.Message.Encode
import Mathlib.Data.List.Nodup

/-!
# Damaged messages are rejected

A message in which few of the bits that its checksum covers are flipped is not decoded, and the
receiver is told that the checksum is wrong (`Record.decode_flipBits`). For SCM messages this holds of
up to four bits. For SCM+ and IDM it holds of up to three bits and of every odd number of bits.
-/

namespace MeterRadio

open Checksum (Code syndrome)

variable {raw : Bytes} {kind : Kind} {positions : List Nat}

/-- The numbers of flipped bits that are always noticed. -/
def Kind.Detects (kind : Kind) (k : Nat) : Prop :=
  match kind with
  | .scm => 1 ≤ k ∧ k ≤ 4
  | .scmPlus | .idm | .idm18 => 1 ≤ k ∧ k ≤ 3 ∨ k % 2 = 1

/-- The positions are bits that the checksum covers, no bit twice. -/
structure Kind.CoveredBits (kind : Kind) (positions : List Nat) : Prop where
  distinct : positions.Nodup
  start_le : ∀ i ∈ positions, 8 * kind.firstCovered ≤ i
  lt_stop : ∀ i ∈ positions, i < 8 * kind.rawSize

/-- Which of the bits that the checksum covers are flipped. -/
def Kind.damage (kind : Kind) (positions : List Nat) : List Bool :=
  (List.range (8 * (kind.rawSize - kind.firstCovered))).map fun i =>
    decide (8 * kind.firstCovered + i ∈ positions)

theorem Kind.count_damage (h : kind.CoveredBits positions) :
    (kind.damage positions).count true = positions.length := by
  have hfirst := kind.firstCovered_add_two_le
  -- the flipped bits of the covered range are the positions, moved to its start
  have hperm : List.Perm
      ((List.range (8 * (kind.rawSize - kind.firstCovered))).filter fun i =>
        decide (8 * kind.firstCovered + i ∈ positions))
      (positions.map (· - 8 * kind.firstCovered)) := by
    refine (List.perm_ext_iff_of_nodup (List.nodup_range.filter _) ?_).mpr fun i => ?_
    · refine h.distinct.map_on fun i hi j hj hij => ?_
      have hi := h.start_le i hi
      have hj := h.start_le j hj
      omega
    · rw [List.mem_filter, List.mem_range, List.mem_map, decide_eq_true_iff]
      constructor
      · rintro ⟨-, hmem⟩
        exact ⟨_, hmem, Nat.add_sub_cancel_left _ _⟩
      · rintro ⟨j, hmem, rfl⟩
        have hstart := h.start_le j hmem
        have hstop := h.lt_stop j hmem
        have hj : 8 * kind.firstCovered + (j - 8 * kind.firstCovered) = j := by omega
        exact ⟨by omega, by rwa [hj]⟩
  rw [damage, List.count_eq_countP, List.countP_map, List.countP_eq_length_filter]
  have hlen := hperm.length_eq
  rw [List.length_map] at hlen
  rw [← hlen]
  congr 2
  funext i
  simp

/-- The difference between the covered bits is the damage. -/
theorem zipWith_covered (hlen : kind.rawSize ≤ raw.length) (h : kind.CoveredBits positions) :
    List.zipWith (· ^^ ·) (Bytes.bits (covered kind raw))
      (Bytes.bits (covered kind (flipBits raw positions))) = kind.damage positions := by
  have hflipped := length_covered (show kind.rawSize ≤ (flipBits raw positions).length by
    rwa [length_flipBits])
  rw [Bytes.zipWith_bits _ ((length_covered hlen).trans hflipped.symm), length_covered hlen]
  refine List.map_congr_left fun i hi => ?_
  rw [List.mem_range] at hi
  rw [covered, covered, Bytes.bit_slice _ hi, Bytes.bit_slice _ hi,
    bit_flipBits h.distinct fun j hj => Nat.lt_of_lt_of_le (h.lt_stop j hj) (Nat.mul_le_mul_left 8 hlen),
    ← Bool.xor_assoc, Bool.xor_self, Bool.false_xor]

theorem Kind.detects_code {k : Nat} (h : kind.Detects k) :
    kind.code.Detects (8 * (kind.rawSize - kind.firstCovered)) k := by
  cases kind with
  | scm => exact Checksum.detects_bch h.1 h.2
  | scmPlus =>
    intro errors hlen hcount
    exact Checksum.detects_ccitt h errors (Nat.le_trans hlen (by decide)) hcount
  | idm => exact Checksum.detects_ccitt h
  | idm18 => exact Checksum.detects_ccitt h

/-- Two registers that end on the same value have been fed a difference without effect. -/
theorem syndrome_damage (hlen : kind.rawSize ≤ raw.length) (h : kind.CoveredBits positions)
    (hsame : kind.code.register (covered kind raw) =
      kind.code.register (covered kind (flipBits raw positions))) :
    syndrome kind.code.poly kind.code.poly (kind.damage positions).reverse = 0 := by
  rw [Code.register_eq_bitwise kind.sound_code, Code.register_eq_bitwise kind.sound_code,
    Checksum.bitwise_eq_feedBits, Checksum.bitwise_eq_feedBits, ← UInt16.xor_eq_zero_iff,
    Checksum.feedBits_xor_feedBits, zipWith_covered hlen h] at hsame
  · exact hsame
  · rw [Bytes.length_bits, Bytes.length_bits, length_covered hlen,
      length_covered (by rwa [length_flipBits])]

/-- A message that is rejected although it is long enough is rejected by its checksum, in the name of
the format that all messages of its kind have. -/
theorem Record.error_eq_checksum {raw' : Bytes} {record : Record} {e : DecodeError}
    (hdecode : Record.decode kind raw = .ok record) (hlen : kind.rawSize ≤ raw'.length)
    (he : Record.decode kind raw' = .error e) : ∃ residual, e = .checksum record.sentAs residual := by
  rw [sentAs_of_decode hdecode]
  exact decode_error hlen he

/-- A message that is accepted is rejected by its checksum once a number of covered bits is flipped
that the code detects. -/
theorem Record.decode_flipBits {record : Record} (hdecode : Record.decode kind raw = .ok record)
    (hcovered : kind.CoveredBits positions) (hdetects : kind.Detects positions.length) :
    ∃ residual,
      Record.decode kind (flipBits raw positions) = .error (.checksum record.sentAs residual) := by
  have hchecks := checkEnvelope_eq_ok_iff.mp (checkEnvelope_of_decode hdecode)
  cases hflipped : Record.decode kind (flipBits raw positions) with
  | error e =>
    have hlen : kind.rawSize ≤ (flipBits raw positions).length := by
      rw [length_flipBits]
      exact hchecks.1
    obtain ⟨residual, rfl⟩ := error_eq_checksum hdecode hlen hflipped
    exact ⟨residual, rfl⟩
  | ok record' =>
    have hchecks' := checkEnvelope_eq_ok_iff.mp (checkEnvelope_of_decode hflipped)
    have hzero := syndrome_damage hchecks.1 hcovered (hchecks.2.trans hchecks'.2.symm)
    have hlen : (kind.damage positions).reverse.length ≤
        8 * (kind.rawSize - kind.firstCovered) := by
      rw [List.length_reverse, Kind.damage, List.length_map, List.length_range]
    have hcount : (kind.damage positions).reverse.count true = positions.length := by
      rw [List.count_reverse, Kind.count_damage hcovered]
    exact absurd hzero (Kind.detects_code hdetects _ hlen hcount)

theorem Record.decode_flipBits_scm :
    let raw : Bytes := [0xF9, 0x53, 0x02, 0x4E, 0x00, 0x30, 0x39, 0xF5, 0x19, 0x09, 0x11, 0xC7]
    let positions := [16, 30, 55, 95]
    Record.decode .scm raw = .ok (.scm (Scm.fields raw)) ∧ Kind.scm.CoveredBits positions ∧
      Kind.scm.Detects positions.length ∧
      ∃ residual, Record.decode .scm (flipBits raw positions) = .error (.checksum .scm residual) := by
  intro raw positions
  have hdecode : Record.decode .scm raw = .ok (.scm (Scm.fields raw)) := by decide +kernel
  have hcovered : Kind.scm.CoveredBits positions := ⟨by decide, by decide, by decide⟩
  have hdetects : Kind.scm.Detects positions.length := ⟨by decide, by decide⟩
  exact ⟨hdecode, hcovered, hdetects, Record.decode_flipBits hdecode hcovered hdetects⟩

end MeterRadio
