import MeterRadio.Line.History
import MeterRadio.Proofs.Bits

/-!
# Preambles as words and as bits

A detector compares words, shifted and masked. What it looks for is a run of bits: `hasPreamble_iff`.
-/

namespace MeterRadio

theorem Kind.le_rawSize (kind : Kind) : 12 ≤ kind.rawSize := by
  cases kind <;> decide

/-- The bits of a preamble as a number, the last one being the least significant. -/
def Kind.preambleCode : Kind → Nat
  | .idm | .idm18 => 0x555516A3
  | .scmPlus => 0x16A3
  | .scm => 0x1F2A60

theorem Kind.preambleBits_length_le (kind : Kind) : kind.preambleBits.length ≤ 32 := by
  cases kind <;> decide

theorem Kind.le_preambleBits_length (kind : Kind) : 16 ≤ kind.preambleBits.length := by
  cases kind <;> decide

theorem Kind.preambleCode_lt (kind : Kind) :
    kind.preambleCode < 2 ^ kind.preambleBits.length := by
  cases kind <;> decide

theorem Kind.getElem_preambleBits (kind : Kind) :
    ∀ i (hi : i < kind.preambleBits.length),
      kind.preambleBits[i] = kind.preambleCode.testBit (kind.preambleBits.length - 1 - i) := by
  cases kind <;> decide

theorem shiftRight_eq_iff {x v n : Nat} (hx : x < 2 ^ 32) (hv : v < 2 ^ n) (hn : n ≤ 32) :
    x >>> (32 - n) = v ↔ ∀ i < n, x.testBit (31 - i) = v.testBit (n - 1 - i) := by
  constructor
  · rintro rfl i hi
    have hidx : 32 - n + (n - 1 - i) = 31 - i := by omega
    rw [Nat.testBit_shiftRight, hidx]
  · intro h
    refine Nat.eq_of_testBit_eq fun j => ?_
    rw [Nat.testBit_shiftRight]
    by_cases hj : j < n
    · have hidx : 31 - (n - 1 - j) = 32 - n + j := by omega
      have hsub : n - 1 - (n - 1 - j) = j := by omega
      have hbit := h (n - 1 - j) (by omega)
      rw [hidx, hsub] at hbit
      exact hbit
    · rw [testBit_eq_false_of_le hx (by omega), testBit_eq_false_of_le hv (by omega)]

/-- The mask of an SCM preamble clears the last three of 24 bits. -/
theorem and_scmPreambleMask {y : Nat} (hy : y < 2 ^ 24) :
    y &&& scmPreambleMask.toNat = 8 * (y / 8) := by
  have hmask : ∀ i < 24, scmPreambleMask.toNat.testBit i = decide (3 ≤ i) := by decide
  have hdiv : 8 * (y / 8) = (y >>> 3) <<< 3 := by
    rw [Nat.shiftLeft_eq, Nat.shiftRight_eq_div_pow]
    omega
  refine Nat.eq_of_testBit_eq fun i => ?_
  rw [Nat.testBit_and, hdiv, Nat.testBit_shiftLeft, Nat.testBit_shiftRight]
  by_cases hi : i < 24
  · rw [hmask i hi, Bool.and_comm]
    by_cases h3 : 3 ≤ i
    · rw [Nat.add_sub_cancel' h3]
    · rw [decide_eq_false h3, Bool.false_and, Bool.false_and]
  · rw [testBit_eq_false_of_le hy (by omega), Bool.false_and, Nat.add_sub_cancel' (by omega),
      testBit_eq_false_of_le hy (by omega), Bool.and_false]

/-- All comparisons are one: the leading bits of the word are the preamble. -/
theorem Kind.hasPreamble_iff_shiftRight (kind : Kind) (word : UInt32) :
    kind.hasPreamble word = true ↔
      word.toNat >>> (32 - kind.preambleBits.length) = kind.preambleCode := by
  have hword := word.toNat_lt
  have hidm : word == idmPreamble ↔ word.toNat >>> 0 = 0x555516A3 := by
    rw [beq_iff_eq, ← UInt32.toNat_inj]
    rfl
  cases kind with
  | idm => exact hidm
  | idm18 => exact hidm
  | scmPlus =>
    have hlt : word.toNat >>> 16 < 2 ^ 16 := by rw [Nat.shiftRight_eq_div_pow]; omega
    have hval : (word >>> 16).toUInt16.toNat = word.toNat >>> 16 := by
      rw [UInt32.toNat_toUInt16, UInt32.toNat_shiftRight]
      exact Nat.mod_eq_of_lt hlt
    show ((word >>> 16).toUInt16 == scmPlusSync) = true ↔ _
    rw [beq_iff_eq, ← UInt16.toNat_inj, hval]
    rfl
  | scm =>
    have hlt : word.toNat >>> 8 < 2 ^ 24 := by rw [Nat.shiftRight_eq_div_pow]; omega
    have hval : ((word >>> 8) &&& scmPreambleMask).toNat = 8 * (word.toNat >>> 8 / 8) := by
      rw [UInt32.toNat_and, UInt32.toNat_shiftRight]
      exact and_scmPreambleMask hlt
    have hshift : word.toNat >>> 11 = word.toNat >>> 8 / 8 := by
      rw [Nat.shiftRight_eq_div_pow, Nat.shiftRight_eq_div_pow, Nat.div_div_eq_div_mul]
    have hcode : scmPreamble.toNat = 8 * 0x1F2A60 := rfl
    show ((word >>> 8) &&& scmPreambleMask == scmPreamble) = true ↔ word.toNat >>> 11 = 0x1F2A60
    rw [beq_iff_eq, ← UInt32.toNat_inj, hval, hshift, hcode]
    omega

/-- A word has the preamble of a kind exactly if its bits start with it. -/
theorem Kind.hasPreamble_iff {kind : Kind} {word : UInt32} {bits : List Bool}
    (h : ∀ i < 32, bits[i]? = some (word.toNat.testBit (31 - i))) :
    kind.hasPreamble word = true ↔ kind.preambleBits <+: bits := by
  have hle := kind.preambleBits_length_le
  rw [hasPreamble_iff_shiftRight, shiftRight_eq_iff word.toNat_lt kind.preambleCode_lt hle,
    List.prefix_iff_getElem?]
  constructor
  · intro hbits i hi
    rw [h i (by omega), hbits i hi, kind.getElem_preambleBits i hi]
  · intro hbits i hi
    have hbit := hbits i hi
    rw [h i (by omega), kind.getElem_preambleBits i hi] at hbit
    exact Option.some.inj hbit

end MeterRadio
