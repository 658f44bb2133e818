import MeterRadio.Message.Envelope
import MeterRadio.Proofs.Bits
import Mathlib.Data.List.GetD

/-!
# Slices

A message is laid out by putting byte strings one after another and read by cutting slices out of it.
A slice of such a string is a slice of one of its parts, and slices that follow each other are one
slice. Numbers and single bytes are written back as the slice that they were read from.
-/

namespace MeterRadio

variable {d e : Bytes} {pos len n : Nat}

theorem length_slice (h : pos + len ≤ d.length) : (slice d pos len).length = len := by
  rw [slice, List.length_take, List.length_drop]
  omega

theorem slice_append_left (h : pos + len ≤ d.length) : slice (d ++ e) pos len = slice d pos len := by
  rw [slice, slice, List.drop_append_of_le_length (by omega), List.take_append_of_le_length]
  rw [List.length_drop]
  omega

theorem slice_append_right (h : d.length ≤ pos) :
    slice (d ++ e) pos len = slice e (pos - d.length) len := by
  rw [slice, slice, List.drop_append, List.drop_eq_nil_of_le h, List.nil_append]

theorem slice_cons (b : UInt8) (d : Bytes) (pos len : Nat) :
    slice (b :: d) (pos + 1) len = slice d pos len := rfl

theorem slice_succ (len : Nat) (h : pos < d.length) :
    slice d pos (len + 1) = byteAt d pos :: slice d (pos + 1) len := by
  rw [slice, slice, byteAt, List.getD_eq_getElem _ _ h, List.drop_eq_getElem_cons h, List.take_succ_cons]

theorem slice_self (h : d.length = len) : slice d 0 len = d := by
  rw [slice, List.drop_zero, List.take_of_length_le (Nat.le_of_eq h)]

theorem slice_append_slice (d : Bytes) (pos len n : Nat) :
    slice d pos len ++ slice d (pos + len) n = slice d pos (len + n) := by
  rw [slice, slice, slice, ← List.drop_drop, ← List.take_add]

theorem slice_zero_eq_take (d : Bytes) (len : Nat) : slice d 0 len = d.take len := by
  rw [slice, List.drop_zero]

theorem bit_eq_byteBit (d : Bytes) (pos : Nat) {i : Nat} (hi : i < 8) :
    Bytes.bit d (8 * pos + i) = byteBit (byteAt d pos) i := by
  have hdiv : (8 * pos + i) / 8 = pos := by omega
  have hmod : (8 * pos + i) % 8 = i := by omega
  rw [Bytes.bit, hdiv, hmod, byteAt]

/-! ## What was read is written back -/

theorem singleton_byteAt (h : pos < d.length) : [byteAt d pos] = slice d pos 1 :=
  (slice_succ 0 h).symm

theorem bit_eq_of_slice_eq (h : slice d pos len = slice e pos len) {i : Nat} (hstart : 8 * pos ≤ i)
    (hend : i < 8 * (pos + len)) : Bytes.bit d i = Bytes.bit e i := by
  have hidx : 8 * pos + (i - 8 * pos) = i := by omega
  have hbit := congrArg (Bytes.bit · (i - 8 * pos)) h
  simpa only [Bytes.bit_slice _ (by omega : i - 8 * pos < 8 * len), hidx] using hbit

theorem beBytes_beField (h : pos + len ≤ d.length) :
    beBytes len (beField d pos len) = slice d pos len := by
  have hback := beBytes_beNat (slice d pos len)
  rwa [length_slice h] at hback

theorem toList_byteFields (h : pos + n ≤ d.length) : (byteFields d pos n).toList = slice d pos n := by
  apply List.ext_getElem
  · rw [Vector.length_toList, length_slice h]
  · intro i hi hi'
    rw [Vector.length_toList] at hi
    simp only [Vector.getElem_toList, byteFields, Vector.getElem_ofFn, byteAt, slice, List.getElem_take,
      List.getElem_drop]
    exact List.getD_eq_getElem _ _ (by omega)

theorem beBytes_word32 (hlen : len ≤ 4) (h : pos + len ≤ d.length) :
    beBytes len (UInt32.ofNat (beField d pos len)).toNat = slice d pos len := by
  have hdvd : 256 ^ len ∣ 256 ^ 4 := Nat.pow_dvd_pow 256 hlen
  rw [UInt32.toNat_ofNat', ← beBytes_beField h]
  exact beBytes_mod hdvd _

theorem beBytes_word16 (h : pos + 2 ≤ d.length) :
    beBytes 2 (UInt16.ofNat (beField d pos 2)).toNat = slice d pos 2 := by
  rw [UInt16.toNat_ofNat', ← beBytes_beField h]
  exact beBytes_mod (Nat.dvd_refl (256 ^ 2)) _

theorem beBytes_eq_slice_iff (h : pos + len ≤ d.length) (hn : n < 256 ^ len) :
    beBytes len n = slice d pos len ↔ beField d pos len = n := by
  constructor
  · intro hslice
    rw [beField, ← hslice, beNat_beBytes, Nat.mod_eq_of_lt hn]
  · rintro rfl
    exact beBytes_beField h

/-! ## What was written is read -/

theorem beField_beBytes (h : slice d pos len = beBytes len n) : beField d pos len = n % 256 ^ len := by
  rw [beField, h, beNat_beBytes]

theorem word32_of_slice {w : UInt32} (h : slice d pos 4 = beBytes 4 w.toNat) :
    UInt32.ofNat (beField d pos 4) = w := by
  have hlt : w.toNat < 256 ^ 4 := w.toNat_lt
  rw [beField_beBytes h, Nat.mod_eq_of_lt hlt, UInt32.ofNat_toNat]

theorem word24_of_slice {w : UInt32} (h : slice d pos 3 = beBytes 3 w.toNat) :
    UInt32.ofNat (beField d pos 3) = w % 0x1000000 := by
  rw [beField_beBytes h]
  apply UInt32.toNat_inj.mp
  simp
  omega

theorem word16_of_slice {w : UInt16} (h : slice d pos 2 = beBytes 2 w.toNat) :
    UInt16.ofNat (beField d pos 2) = w := by
  have hlt : w.toNat < 256 ^ 2 := w.toNat_lt
  rw [beField_beBytes h, Nat.mod_eq_of_lt hlt, UInt16.ofNat_toNat]

theorem byteFields_of_slice {v : Vector UInt8 n} (h : slice d pos n = v.toList)
    (hend : pos + n ≤ d.length) : byteFields d pos n = v := by
  rw [← Vector.toList_inj, toList_byteFields hend, h]

end MeterRadio
