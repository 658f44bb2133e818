import MeterRadio.Bits.Number
import MeterRadio.Proofs.Packed
import MeterRadio.Proofs.Slice

/-!
# Numbers in bits, and how they are read

The bits of a number are those it is spelled with, the last one being the least significant
(`testBit_numberAt`). So whatever way a field is read, as whole bytes, as a part of one byte or as one
of several packed fields, what is read is the number in the bits of the field.
-/

namespace MeterRadio

variable {d : Bytes} {first len pos offset width n : Nat}

/-! ## Bits -/

theorem bitsNat_append_singleton (bits : List Bool) (b : Bool) :
    bitsNat (bits ++ [b]) = 2 * bitsNat bits + b.toNat := by
  rw [bitsNat, List.foldl_append]
  rfl

theorem bitsNat_append (high low : List Bool) :
    bitsNat (high ++ low) = bitsNat high * 2 ^ low.length + bitsNat low := by
  induction low using List.reverseRecOn with
  | nil => simp [bitsNat]
  | append_singleton low b ih =>
    rw [← List.append_assoc, bitsNat_append_singleton, bitsNat_append_singleton, ih, List.length_append,
      List.length_singleton, Nat.pow_succ, Nat.mul_add, Nat.add_assoc, Nat.mul_left_comm,
      Nat.mul_comm 2 (2 ^ low.length)]

theorem testBit_bitsNat (bits : List Bool) (j : Nat) :
    (bitsNat bits).testBit j = bits.reverse.getD j false := by
  induction bits using List.reverseRecOn generalizing j with
  | nil => simp [bitsNat]
  | append_singleton bits b ih =>
    have htwo : 2 * bitsNat bits = 2 ^ 1 * bitsNat bits := rfl
    rw [bitsNat_append_singleton, htwo, Nat.testBit_two_pow_mul_add _ (Bool.toNat_lt b),
      List.reverse_append, List.reverse_singleton, List.singleton_append]
    cases j with
    | zero => cases b <;> rfl
    | succ j => exact ih j

theorem testBit_numberAt (d : Bytes) (first len j : Nat) :
    (numberAt d first len).testBit j =
      (decide (j < len) && Bytes.bit d (first + len - 1 - j)) := by
  rw [numberAt, testBit_bitsNat, List.getD_eq_getElem?_getD]
  by_cases hj : j < len
  · have hidx : first + (len - 1 - j) = first + len - 1 - j := by omega
    rw [List.getElem?_reverse (by rwa [length_bitsAt]), length_bitsAt, bitsAt, List.getElem?_map,
      List.getElem?_range (by omega), Option.map_some, Option.getD_some, hidx, decide_eq_true hj,
      Bool.true_and]
  · rw [List.getElem?_eq_none (by rw [List.length_reverse, length_bitsAt]; omega), decide_eq_false hj,
      Bool.false_and]
    rfl

theorem eq_numberAt (h : ∀ j, n.testBit j = (decide (j < len) && Bytes.bit d (first + len - 1 - j))) :
    n = numberAt d first len :=
  Nat.eq_of_testBit_eq fun j => (h j).trans (testBit_numberAt d first len j).symm

theorem byteBit_bitsNat {bits : List Bool} (h : bits.length = 8) {i : Nat} (hi : i < 8) :
    byteBit (UInt8.ofNat (bitsNat bits)) i = bits.getD i false := by
  have hlt : 7 - i < 8 := by omega
  have hidx : bits.length - 1 - (7 - i) = i := by omega
  rw [byteBit, decide_eq_true hi, Bool.true_and, UInt8.toNat_ofNat', Nat.testBit_mod_two_pow,
    decide_eq_true hlt, Bool.true_and, testBit_bitsNat, List.getD_eq_getElem?_getD,
    List.getElem?_reverse (by omega), hidx, List.getD_eq_getElem?_getD]

/-- Bits that fill whole bytes are the bits of these bytes. -/
theorem bits_ofBits {bits : List Bool} (h : bits.length = 8 * n) : Bytes.bits (ofBits bits) = bits := by
  have hsize : (ofBits bits).length = n := by
    rw [length_ofBits, h, Nat.mul_div_cancel_left _ (by omega)]
  refine List.ext_getElem (by rw [Bytes.length_bits, hsize, h]) fun i hi hi' => ?_
  have hbyte : (ofBits bits).getD (i / 8) 0 =
      UInt8.ofNat (bitsNat ((bits.drop (8 * (i / 8))).take 8)) := by
    rw [List.getD_eq_getElem _ _ (by omega)]
    simp [ofBits]
  have hfull : ((bits.drop (8 * (i / 8))).take 8).length = 8 := by
    rw [List.length_take, List.length_drop]
    omega
  have hidx : 8 * (i / 8) + i % 8 = i := by omega
  rw [← List.getD_eq_getElem _ false hi, Bytes.getD_bits, Bytes.bit, hbyte,
    byteBit_bitsNat hfull (by omega), List.getD_eq_getElem?_getD, List.getElem?_take_of_lt (by omega),
    List.getElem?_drop, hidx, List.getElem?_eq_getElem hi', Option.getD_some]

/-! ## Whole bytes -/

theorem beField_eq_numberAt (h : pos + len ≤ d.length) :
    beField d pos len = numberAt d (8 * pos) (8 * len) := by
  refine eq_numberAt fun j => ?_
  rw [beField, testBit_beNat, length_slice h]
  by_cases hj : j < 8 * len
  · have hidx : 8 * pos + (8 * len - 1 - j) = 8 * pos + 8 * len - 1 - j := by omega
    rw [Bytes.bit_slice _ (by omega), hidx]
  · rw [decide_eq_false hj, Bool.false_and, Bool.false_and]

theorem numberAt_lt (d : Bytes) (first len : Nat) : numberAt d first len < 2 ^ len :=
  Nat.lt_pow_two_of_testBit _ fun j hj => by
    rw [testBit_numberAt, decide_eq_false (Nat.not_lt.mpr hj), Bool.false_and]

theorem toNat_word32 (hlen : len ≤ 4) (h : pos + len ≤ d.length) :
    (UInt32.ofNat (beField d pos len)).toNat = numberAt d (8 * pos) (8 * len) := by
  have hlt := numberAt_lt d (8 * pos) (8 * len)
  have hpow : 2 ^ (8 * len) ≤ 2 ^ 32 := Nat.pow_le_pow_right (by omega) (by omega)
  rw [UInt32.toNat_ofNat', beField_eq_numberAt h, Nat.mod_eq_of_lt (by omega)]

theorem toNat_word16 (h : pos + 2 ≤ d.length) :
    (UInt16.ofNat (beField d pos 2)).toNat = numberAt d (8 * pos) 16 := by
  have hlt := numberAt_lt d (8 * pos) 16
  rw [UInt16.toNat_ofNat', beField_eq_numberAt h, Nat.mod_eq_of_lt hlt]

/-! ## Parts of a byte -/

/-- A part of a byte is cut out by a shift and a mask. -/
theorem byteAt_part_eq_numberAt (d : Bytes) (pos start len : Nat) (h : start + len ≤ 8) :
    (byteAt d pos).toNat / 2 ^ (8 - start - len) % 2 ^ len = numberAt d (8 * pos + start) len := by
  refine eq_numberAt fun j => ?_
  rw [Nat.testBit_mod_two_pow, Nat.testBit_div_two_pow]
  by_cases hj : j < len
  · have hidx : 8 * pos + start + len - 1 - j = 8 * pos + (start + len - 1 - j) := by omega
    have hbit : j + (8 - start - len) = 7 - (start + len - 1 - j) := by omega
    have hlt : start + len - 1 - j < 8 := by omega
    rw [hidx, bit_eq_byteBit _ _ hlt, byteBit, decide_eq_true hlt, Bool.true_and, hbit]
  · rw [decide_eq_false hj, Bool.false_and, Bool.false_and]

theorem toNat_byte (hlen : len ≤ 8) (h : n = numberAt d first len) :
    (UInt8.ofNat n).toNat = numberAt d first len := by
  have hlt := numberAt_lt d first len
  have hpow : 2 ^ len ≤ 2 ^ 8 := Nat.pow_le_pow_right (by omega) hlen
  rw [UInt8.toNat_ofNat', h, Nat.mod_eq_of_lt (by omega)]

theorem toNat_byteAt (d : Bytes) (pos : Nat) : (byteAt d pos).toNat = numberAt d (8 * pos) 8 := by
  have hpart := byteAt_part_eq_numberAt d pos 0 8 (Nat.le_refl 8)
  rwa [Nat.pow_zero, Nat.div_one, Nat.mod_eq_of_lt (byteAt d pos).toNat_lt] at hpart

theorem toNat_byteFields (d : Bytes) (pos : Nat) {i : Nat} (hi : i < n) :
    (byteFields d pos n)[i].toNat = numberAt d (8 * (pos + i)) 8 := by
  rw [byteFields, Vector.getElem_ofFn, toNat_byteAt]

/-! ## Packed fields -/

theorem toNat_readPacked {values : Vector UInt16 n} (hmax : width ≤ 16)
    (h : readPacked d offset width n = .ok values) {i : Nat} (hi : i < n) :
    values[i].toNat = numberAt d (offset + width * i) width := by
  obtain ⟨hpacks, hlt⟩ := packs_of_readPacked hmax h
  refine eq_numberAt fun j => ?_
  by_cases hj : j < width
  · have hbit := hpacks i (by rwa [Vector.length_toList]) (width - 1 - j) (by omega)
    have hidx : offset + i * width + (width - 1 - j) = offset + width * i + width - 1 - j := by
      rw [Nat.mul_comm i width]
      omega
    have hback : width - 1 - (width - 1 - j) = j := by omega
    rw [hidx, hback, Vector.getElem_toList] at hbit
    rw [decide_eq_true hj, Bool.true_and, hbit]
  · have hvalue := hlt values[i] (Vector.getElem_mem hi)
    rw [decide_eq_false hj, Bool.false_and, testBit_eq_false_of_le hvalue (by omega)]

end MeterRadio
