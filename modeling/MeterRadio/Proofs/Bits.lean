import MeterRadio.Bits.Align
import MeterRadio.Bits.Field
import Mathlib.Algebra.Group.Nat.Defs
import Mathlib.Data.List.Induction
import Mathlib.Tactic.Common

/-!
# Bits of byte strings and of numbers

The bits of a byte string determine it (`Bytes.bits_inj`), big-endian numbers have the bits of their
bytes (`testBit_beNat`), and so have fields (`testBit_fieldValue`).
-/

namespace MeterRadio

variable {d e : Bytes} {offset len : Nat}

/-- A number has no bits from the power of two on that bounds it. -/
theorem testBit_eq_false_of_le {x n j : Nat} (hx : x < 2 ^ n) (hj : n ≤ j) : x.testBit j = false :=
  Nat.testBit_lt_two_pow (Nat.lt_of_lt_of_le hx (Nat.pow_le_pow_right (by decide) hj))

/-! ## Byte strings -/

namespace Bytes

theorem bit_cons_of_lt {i : Nat} (b : UInt8) (d : Bytes) (hi : i < 8) :
    bit (b :: d) i = byteBit b i := by
  rw [bit, Nat.div_eq_of_lt hi, Nat.mod_eq_of_lt hi, List.getD_cons_zero]

theorem bit_cons_add (b : UInt8) (d : Bytes) (i : Nat) : bit (b :: d) (8 + i) = bit d i := by
  have hdiv : (8 + i) / 8 = i / 8 + 1 := by omega
  have hmod : (8 + i) % 8 = i % 8 := by omega
  rw [bit, hdiv, hmod, List.getD_cons_succ, bit]

theorem bit_append (d e : Bytes) (i : Nat) :
    bit (d ++ e) i = if i < 8 * d.length then bit d i else bit e (i - 8 * d.length) := by
  induction d generalizing i with
  | nil => simp
  | cons b d ih =>
    rw [List.cons_append, List.length_cons]
    by_cases hi : i < 8
    · rw [bit_cons_of_lt _ _ hi, bit_cons_of_lt _ _ hi, if_pos (by omega)]
    · obtain ⟨k, rfl⟩ : ∃ k, i = 8 + k := ⟨i - 8, by omega⟩
      have hsub : 8 + k - 8 * (d.length + 1) = k - 8 * d.length := by omega
      rw [bit_cons_add, bit_cons_add, ih, hsub]
      by_cases hk : k < 8 * d.length
      · rw [if_pos hk, if_pos (by omega)]
      · rw [if_neg hk, if_neg (by omega)]

theorem bit_drop (d : Bytes) (n i : Nat) : bit (d.drop n) i = bit d (8 * n + i) := by
  have hdiv : (8 * n + i) / 8 = n + i / 8 := by omega
  have hmod : (8 * n + i) % 8 = i % 8 := by omega
  rw [bit, bit, hdiv, hmod, List.getD_eq_getElem?_getD, List.getD_eq_getElem?_getD,
    List.getElem?_drop]

theorem bit_take {n i : Nat} (d : Bytes) (hi : i < 8 * n) : bit (d.take n) i = bit d i := by
  rw [bit, bit, List.getD_eq_getElem?_getD, List.getD_eq_getElem?_getD,
    List.getElem?_take_of_lt (by omega)]

theorem bit_slice {pos n i : Nat} (d : Bytes) (hi : i < 8 * n) :
    bit (slice d pos n) i = bit d (8 * pos + i) := by
  rw [slice, bit_take _ hi, bit_drop]

theorem bits_cons (b : UInt8) (d : Bytes) : bits (b :: d) = byteBits b ++ bits d := rfl

theorem bits_append (d e : Bytes) : bits (d ++ e) = bits d ++ bits e :=
  List.flatMap_append

theorem bits_prefix (h : d <+: e) : bits d <+: bits e := by
  obtain ⟨r, rfl⟩ := h
  rw [bits_append]
  exact List.prefix_append _ _

theorem bits_eq_map (d : Bytes) : bits d = (List.range (8 * d.length)).map (bit d) := by
  induction d with
  | nil => rfl
  | cons b d ih =>
    have hlen : 8 * (b :: d).length = 8 + 8 * d.length := by rw [List.length_cons]; omega
    have hhead : (List.range 8).map (bit (b :: d)) = byteBits b :=
      List.map_congr_left fun i hi => bit_cons_of_lt b d (List.mem_range.mp hi)
    have htail : ((List.range (8 * d.length)).map (8 + ·)).map (bit (b :: d)) = bits d := by
      rw [ih, List.map_map]
      exact List.map_congr_left fun i _ => bit_cons_add b d i
    rw [hlen, List.range_add, List.map_append, hhead, htail, bits_cons]

theorem getD_bits (d : Bytes) (i : Nat) : (bits d).getD i false = bit d i := by
  rw [bits_eq_map, List.getD_eq_getElem?_getD, List.getElem?_map]
  by_cases hi : i < 8 * d.length
  · rw [List.getElem?_range hi]
    rfl
  · rw [List.getElem?_eq_none (by rw [List.length_range]; omega), bit_eq_false (by omega)]
    rfl

theorem byteBits_inj {b c : UInt8} (h : byteBits b = byteBits c) : b = c := by
  have hbits (i : Nat) (hi : i < 8) : byteBit b i = byteBit c i :=
    List.map_inj_left.mp h i (List.mem_range.mpr hi)
  rw [← UInt8.toNat_inj]
  refine Nat.eq_of_testBit_eq fun j => ?_
  by_cases hj : j < 8
  · have hbit := hbits (7 - j) (by omega)
    have hsub : 7 - (7 - j) = j := by omega
    have hlt : 7 - j < 8 := by omega
    simpa [byteBit, hsub, hlt] using hbit
  · rw [testBit_eq_false_of_le b.toNat_lt (by omega), testBit_eq_false_of_le c.toNat_lt (by omega)]

theorem bits_inj (h : bits d = bits e) : d = e := by
  have hlen : 8 * d.length = 8 * e.length := by rw [← length_bits, h, length_bits]
  induction d generalizing e with
  | nil =>
    cases e with
    | nil => rfl
    | cons c e => rw [List.length_nil, List.length_cons] at hlen; omega
  | cons b d ih =>
    cases e with
    | nil => rw [List.length_nil, List.length_cons] at hlen; omega
    | cons c e =>
      rw [bits_cons, bits_cons] at h
      obtain ⟨hb, hd⟩ := List.append_inj h (by simp)
      rw [List.length_cons, List.length_cons] at hlen
      rw [byteBits_inj hb, ih hd (by omega)]

theorem prefix_of_bits_prefix (h : bits d <+: bits e) : d <+: e := by
  induction d generalizing e with
  | nil => exact List.nil_prefix
  | cons b d ih =>
    obtain ⟨rest, hrest⟩ := h
    cases e with
    | nil =>
      have hlen := congrArg List.length hrest
      simp [bits_cons] at hlen
    | cons c e =>
      rw [bits_cons, bits_cons, List.append_assoc] at hrest
      obtain ⟨hb, hd⟩ := List.append_inj hrest (by simp)
      rw [byteBits_inj hb, List.cons_prefix_cons]
      exact ⟨rfl, ih ⟨rest, hd⟩⟩

theorem ext_bit (hlen : d.length = e.length) (h : ∀ i < 8 * d.length, bit d i = bit e i) : d = e := by
  apply bits_inj
  rw [bits_eq_map, bits_eq_map, ← hlen]
  exact List.map_congr_left fun i hi => h i (List.mem_range.mp hi)

theorem zipWith_bits (f : Bool → Bool → Bool) (h : d.length = e.length) :
    List.zipWith f (bits d) (bits e) =
      (List.range (8 * d.length)).map fun i => f (bit d i) (bit e i) := by
  rw [bits_eq_map, bits_eq_map, h, List.zipWith_map, List.zipWith_self]

end Bytes

/-! ## Numbers -/

theorem beNat_append_singleton (d : Bytes) (b : UInt8) :
    beNat (d ++ [b]) = 256 * beNat d + b.toNat := by
  rw [beNat, List.foldl_append]
  rfl

theorem beNat_lt (d : Bytes) : beNat d < 2 ^ (8 * d.length) := by
  induction d using List.reverseRecOn with
  | nil => exact Nat.zero_lt_one
  | append_singleton d b ih =>
    have hpow : 2 ^ (8 * (d ++ [b]).length) = 256 * 2 ^ (8 * d.length) := by
      rw [List.length_append, List.length_singleton, Nat.mul_add, Nat.pow_add, Nat.mul_comm]
    have hb := b.toNat_lt
    rw [beNat_append_singleton, hpow]
    omega

/-- The bits of a big-endian number, the least significant first, are those of its bytes read
backwards. -/
theorem testBit_beNat (d : Bytes) (j : Nat) :
    (beNat d).testBit j = (decide (j < 8 * d.length) && Bytes.bit d (8 * d.length - 1 - j)) := by
  by_cases hj : j < 8 * d.length
  · rw [decide_eq_true hj, Bool.true_and]
    induction d using List.reverseRecOn generalizing j with
    | nil => exact absurd hj (Nat.not_lt_zero _)
    | append_singleton d b ih =>
      have hlen : (d ++ [b]).length = d.length + 1 := List.length_append
      have h256 : 256 * beNat d = 2 ^ 8 * beNat d := rfl
      rw [beNat_append_singleton, h256, Nat.testBit_two_pow_mul_add _ b.toNat_lt, Bytes.bit_append,
        hlen]
      by_cases hj8 : j < 8
      · have hlast : 8 * (d.length + 1) - 1 - j - 8 * d.length = 7 - j := by omega
        have hsub : 7 - (7 - j) = j := by omega
        have hlt : 7 - j < 8 := by omega
        rw [if_pos hj8, if_neg (by omega), hlast, Bytes.bit_cons_of_lt _ _ hlt, byteBit, hsub,
          decide_eq_true hlt, Bool.true_and]
      · have hidx : 8 * (d.length + 1) - 1 - j = 8 * d.length - 1 - (j - 8) := by omega
        rw [if_neg hj8, if_pos (by omega), hidx]
        exact ih (j - 8) (by omega)
  · rw [decide_eq_false hj, Bool.false_and, testBit_eq_false_of_le (beNat_lt d) (by omega)]

theorem beNat_beBytes (len n : Nat) : beNat (beBytes len n) = n % 256 ^ len := by
  induction len generalizing n with
  | zero => simp [beBytes, beNat, Nat.mod_one]
  | succ len ih =>
    have byte : (UInt8.ofNat n).toNat = n % 256 := by simp
    have h := ih (n / 256)
    simp only [beNat] at h
    simp only [beNat, beBytes, List.foldl_append, h, List.foldl_cons, List.foldl_nil, byte]
    rw [Nat.pow_succ, Nat.mul_comm (256 ^ len) 256, Nat.mod_mul]
    omega

theorem beNat_inj (hlen : d.length = e.length) (h : beNat d = beNat e) : d = e := by
  refine Bytes.ext_bit hlen fun i hi => ?_
  have hbit := congrArg (Nat.testBit · (8 * d.length - 1 - i)) h
  have hidx : 8 * e.length - 1 - (8 * e.length - 1 - i) = i := by omega
  simpa only [testBit_beNat, hlen, hidx, decide_eq_true (by omega : 8 * e.length - 1 - i < 8 * e.length),
    Bool.true_and] using hbit

theorem beBytes_beNat (d : Bytes) : beBytes d.length (beNat d) = d := by
  apply beNat_inj (length_beBytes _ _)
  have hpow : 256 ^ d.length = 2 ^ (8 * d.length) := by rw [Nat.pow_mul]
  rw [beNat_beBytes, hpow, Nat.mod_eq_of_lt (beNat_lt d)]

/-- Digits above the ones that are written make no difference. -/
theorem beBytes_mod {len k : Nat} (h : 256 ^ len ∣ k) (n : Nat) :
    beBytes len (n % k) = beBytes len n := by
  apply beNat_inj (by rw [length_beBytes, length_beBytes])
  rw [beNat_beBytes, beNat_beBytes, Nat.mod_mod_of_dvd _ h]

theorem leNat_leBytes (len n : Nat) : leNat (leBytes len n) = n % 256 ^ len := by
  induction len generalizing n with
  | zero => simp [leBytes, leNat, Nat.mod_one]
  | succ len ih =>
    have byte : (UInt8.ofNat n).toNat = n % 256 := by simp
    rw [leBytes, leNat, ih, byte, Nat.pow_succ, Nat.mul_comm (256 ^ len) 256, Nat.mod_mul]

/-! ## Fields -/

/-- Bytes gathered in a word are a big-endian number as long as the word has room for them. -/
theorem toNat_foldl_word (d : Bytes) (h : d.length ≤ 8) :
    (d.foldl (fun (w : UInt64) b => (w <<< 8) ||| b.toUInt64) 0).toNat = beNat d := by
  induction d using List.reverseRecOn with
  | nil => rfl
  | append_singleton d b ih =>
    have hlen : (d ++ [b]).length = d.length + 1 := List.length_append
    have hlt : beNat d < 2 ^ 56 :=
      Nat.lt_of_lt_of_le (beNat_lt d) (Nat.pow_le_pow_right (by omega) (by omega))
    have hshift : beNat d <<< 8 % 2 ^ 64 = beNat d <<< 8 :=
      Nat.mod_eq_of_lt (by rw [Nat.shiftLeft_eq]; omega)
    have h8 : (8 : UInt64).toNat % 64 = 8 := rfl
    rw [List.foldl_append, List.foldl_cons, List.foldl_nil, UInt64.toNat_or, UInt64.toNat_shiftLeft,
      ih (by omega), h8, hshift, UInt8.toNat_toUInt64,
      ← Nat.shiftLeft_add_eq_or_of_lt b.toNat_lt, beNat_append_singleton, Nat.shiftLeft_eq,
      Nat.mul_comm]

theorem toNat_mask (h : len ≤ maxFieldBits) :
    ((1 <<< UInt64.ofNat len) - 1 : UInt64).toNat = 2 ^ len - 1 := by
  have hlen : len < 64 := by rw [maxFieldBits] at h; omega
  have hpow : 2 ^ len < 2 ^ 64 := Nat.pow_lt_pow_right (by omega) hlen
  have hlen' : (UInt64.ofNat len).toNat % 64 = len := by
    rw [UInt64.toNat_ofNat', Nat.mod_mod_of_dvd _ (by decide), Nat.mod_eq_of_lt hlen]
  have hone : ((1 : UInt64) <<< UInt64.ofNat len).toNat = 2 ^ len := by
    rw [UInt64.toNat_shiftLeft, hlen', UInt64.toNat_one, Nat.shiftLeft_eq, Nat.one_mul,
      Nat.mod_eq_of_lt hpow]
  have hle : (1 : UInt64) ≤ 1 <<< UInt64.ofNat len := by
    rw [UInt64.le_iff_toNat_le, hone]
    exact Nat.one_le_two_pow
  rw [UInt64.toNat_sub_of_le _ _ hle, hone, UInt64.toNat_one]

/-- A field has the bits of the byte string, the last one being the least significant. -/
theorem testBit_fieldValue (h : FieldFits d offset len) (j : Nat) :
    (fieldValue d offset len).toNat.testBit j =
      (decide (j < len) && Bytes.bit d (offset + len - 1 - j)) := by
  obtain ⟨hpos, hmax, hend⟩ := h
  have hmax' : len ≤ 32 := hmax
  have hbytes : fieldBytes offset len = (offset + len - 1) / 8 + 1 - offset / 8 := rfl
  obtain ⟨first, hfirst⟩ : ∃ first, first = offset / 8 := ⟨_, rfl⟩
  obtain ⟨trailing, htrailing⟩ :
    ∃ trailing, trailing = 8 * ((offset + len - 1) / 8 + 1) - (offset + len) := ⟨_, rfl⟩
  have hlen : (slice d first (fieldBytes offset len)).length = fieldBytes offset len := by
    rw [slice, List.length_take, List.length_drop]
    omega
  have hword : (fieldWord d offset len).toNat = beNat (slice d first (fieldBytes offset len)) := by
    rw [fieldWord, ← hfirst]
    exact toNat_foldl_word _ (by omega)
  have htr : (UInt64.ofNat trailing).toNat % 64 = trailing := by
    rw [UInt64.toNat_ofNat', Nat.mod_mod_of_dvd _ (by decide), Nat.mod_eq_of_lt (by omega)]
  -- the field is what is left of the gathered bytes between the bits behind it and before it
  have hvalue : (fieldValue d offset len).toNat =
      (beNat (slice d first (fieldBytes offset len)) >>> trailing) % 2 ^ len := by
    have hpow : 2 ^ len ≤ 2 ^ 32 := Nat.pow_le_pow_right (by omega) hmax'
    rw [fieldValue, ← htrailing, UInt64.toNat_toUInt32, UInt64.toNat_and, UInt64.toNat_shiftRight,
      hword, htr, toNat_mask hmax, Nat.and_two_pow_sub_one_eq_mod]
    exact Nat.mod_eq_of_lt (Nat.lt_of_lt_of_le (Nat.mod_lt _ (Nat.two_pow_pos len)) hpow)
  rw [hvalue, Nat.testBit_mod_two_pow, Nat.testBit_shiftRight, testBit_beNat, hlen]
  by_cases hj : j < len
  · have hidx : 8 * first + (8 * fieldBytes offset len - 1 - (trailing + j)) =
        offset + len - 1 - j := by
      omega
    rw [decide_eq_true hj, Bool.true_and, Bool.true_and, Bytes.bit_slice _ (by omega), hidx,
      decide_eq_true (by omega), Bool.true_and]
  · rw [decide_eq_false hj, Bool.false_and, Bool.false_and]

end MeterRadio
