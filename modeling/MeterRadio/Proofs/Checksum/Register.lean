import MeterRadio.Checksum
import MeterRadio.Proofs.Bits
import Mathlib.Data.Nat.Bitwise
import Mathlib.Tactic.Common

/-!
# The checksum register is linear

A shift of the register is linear in exclusive or (`shiftBit_xor`), and injective as long as the
generator has a constant term (`shiftBits_inj`). So a register that is fed two messages bit by bit
differs between them by what their difference leaves in an empty register (`feedBits_xor`).

Feeding bytes through the table is feeding their bits (`tabular_lookupTable`): eight shifts of a
register are eight shifts of its high byte, and the low byte moved up.
-/

namespace MeterRadio.Checksum

variable {poly reg : UInt16} {n : Nat}

/-! ## Shifts -/

/-- The bit that the next shift takes out. -/
def topBit (w : UInt16) : Bool :=
  w.toNat.testBit 15

/-- The register with `b` in its top bit and nothing else. -/
def inTop (b : Bool) : UInt16 :=
  if b then 0x8000 else 0

theorem topBit_xor (v w : UInt16) : topBit (v ^^^ w) = (topBit v ^^ topBit w) := by
  rw [topBit, UInt16.toNat_xor, Nat.testBit_xor]
  rfl

theorem and_eq_inTop (w : UInt16) : w &&& 0x8000 = inTop (topBit w) := by
  have h : (w &&& 0x8000).toNat = (topBit w).toNat * 2 ^ 15 := by
    rw [UInt16.toNat_and]
    exact Nat.and_two_pow _ 15
  rw [← UInt16.toNat_inj, h]
  cases topBit w with
  | false => rfl
  | true => rfl

theorem shiftBit_eq (poly w : UInt16) :
    shiftBit poly w = (w <<< 1) ^^^ (if topBit w then poly else 0) := by
  rw [shiftBit, and_eq_inTop]
  cases topBit w with
  | false => exact UInt16.xor_zero.symm
  | true => rfl

theorem shiftBit_xor (poly v w : UInt16) :
    shiftBit poly (v ^^^ w) = shiftBit poly v ^^^ shiftBit poly w := by
  rw [shiftBit_eq, shiftBit_eq, shiftBit_eq, topBit_xor, UInt16.shiftLeft_xor]
  cases topBit v with
  | false =>
    cases topBit w with
    | false => simp
    | true => simp [UInt16.xor_assoc]
  | true =>
    cases topBit w with
    | false => simp [UInt16.xor_assoc, UInt16.xor_comm poly]
    | true =>
      -- the generator is subtracted twice
      have hcancel : v <<< 1 ^^^ poly ^^^ (w <<< 1 ^^^ poly) = v <<< 1 ^^^ w <<< 1 := by
        rw [UInt16.xor_comm (w <<< 1), UInt16.xor_assoc, ← UInt16.xor_assoc poly, UInt16.xor_self,
          UInt16.zero_xor]
      simp [hcancel]

theorem shiftBit_zero (poly : UInt16) : shiftBit poly 0 = 0 := by
  have h := shiftBit_xor poly 0 0
  rwa [UInt16.xor_self, UInt16.xor_self] at h

theorem shiftBits_xor (poly : UInt16) (n : Nat) (v w : UInt16) :
    shiftBits poly n (v ^^^ w) = shiftBits poly n v ^^^ shiftBits poly n w := by
  induction n generalizing v w with
  | zero => rfl
  | succ n ih => rw [shiftBits, shiftBit_xor, ih, shiftBits, shiftBits]

theorem shiftBits_zero (poly : UInt16) (n : Nat) : shiftBits poly n 0 = 0 := by
  induction n with
  | zero => rfl
  | succ n ih => rw [shiftBits, shiftBit_zero, ih]

theorem shiftBits_add (poly : UInt16) (m n : Nat) (w : UInt16) :
    shiftBits poly (m + n) w = shiftBits poly n (shiftBits poly m w) := by
  induction m generalizing w with
  | zero => rw [Nat.zero_add, shiftBits]
  | succ m ih => rw [Nat.succ_add, shiftBits, ih, shiftBits]

/-- The generator has a constant term. -/
def HasConstantTerm (poly : UInt16) : Prop :=
  poly.toNat.testBit 0 = true

/-- A shift loses nothing: the bit that is taken out can be told from the lowest bit that comes in. -/
theorem shiftBit_eq_zero (hconst : HasConstantTerm poly) {w : UInt16} (h : shiftBit poly w = 0) :
    w = 0 := by
  rw [shiftBit_eq, UInt16.xor_eq_zero_iff] at h
  have hshift : (w <<< 1).toNat = 2 * w.toNat % 2 ^ 16 := by
    rw [UInt16.toNat_shiftLeft, Nat.shiftLeft_eq, Nat.mul_comm]
    rfl
  cases htop : topBit w with
  | true =>
    rw [htop, if_pos rfl] at h
    rw [HasConstantTerm, ← h, hshift, Nat.testBit_zero] at hconst
    have : 2 * w.toNat % 2 ^ 16 % 2 = 1 := of_decide_eq_true hconst
    omega
  | false =>
    rw [htop, if_neg Bool.false_ne_true] at h
    rw [h] at hshift
    have hlt : w.toNat / 2 ^ 15 % 2 = 0 := by
      rw [topBit, Nat.testBit_eq_decide_div_mod_eq, decide_eq_false_iff_not] at htop
      omega
    have hzero : 2 * w.toNat % 2 ^ 16 = 0 := hshift.symm
    have hbound := w.toNat_lt
    rw [← UInt16.toNat_inj, UInt16.toNat_zero]
    omega

theorem shiftBits_eq_zero (hconst : HasConstantTerm poly) {w : UInt16}
    (h : shiftBits poly n w = 0) : w = 0 := by
  induction n generalizing w with
  | zero => exact h
  | succ n ih => exact shiftBit_eq_zero hconst (ih h)

theorem shiftBits_inj (hconst : HasConstantTerm poly) {v w : UInt16}
    (h : shiftBits poly n v = shiftBits poly n w) : v = w := by
  rw [← UInt16.xor_eq_zero_iff] at h ⊢
  rw [← shiftBits_xor] at h
  exact shiftBits_eq_zero hconst h

/-! ## Feeding bits -/

/-- Feeds one bit: it is added to the top of the register, which then makes one shift. -/
def feedBit (poly reg : UInt16) (b : Bool) : UInt16 :=
  shiftBit poly (reg ^^^ inTop b)

/-- The register after all bits. -/
def feedBits (poly reg : UInt16) (bits : List Bool) : UInt16 :=
  bits.foldl (feedBit poly) reg

theorem inTop_xor (a b : Bool) : inTop (a ^^ b) = inTop a ^^^ inTop b := by
  cases a <;> cases b <;> rfl

theorem feedBit_xor (poly v w : UInt16) (a b : Bool) :
    feedBit poly (v ^^^ w) (a ^^ b) = feedBit poly v a ^^^ feedBit poly w b := by
  rw [feedBit, feedBit, feedBit, inTop_xor, ← shiftBit_xor]
  congr 1
  rw [UInt16.xor_assoc, UInt16.xor_assoc, ← UInt16.xor_assoc w, UInt16.xor_comm w,
    UInt16.xor_assoc (inTop a)]

theorem feedBits_xor (poly v w : UInt16) {xs ys : List Bool} (h : xs.length = ys.length) :
    feedBits poly v xs ^^^ feedBits poly w ys =
      feedBits poly (v ^^^ w) (List.zipWith (· ^^ ·) xs ys) := by
  induction xs generalizing ys v w with
  | nil =>
    obtain rfl := List.length_eq_zero_iff.mp h.symm
    rfl
  | cons a xs ih =>
    cases ys with
    | nil => cases h
    | cons b ys =>
      have hstep := ih (feedBit poly v a) (feedBit poly w b) (Nat.succ.inj h)
      rwa [← feedBit_xor] at hstep

theorem feedBits_append (poly reg : UInt16) (xs ys : List Bool) :
    feedBits poly reg (xs ++ ys) = feedBits poly (feedBits poly reg xs) ys :=
  List.foldl_append

/-- The bits that the next `n` shifts take out of a register whose generator is zero. -/
def topBits : (n : Nat) → (w : UInt16) → List Bool
  | 0, _ => []
  | n + 1, w => topBit w :: topBits n (w <<< 1)

/-- A word that is added to the register before `n` shifts is fed by its top `n` bits, and the other
bits move up. -/
theorem shiftBits_xor_eq_feedBits (poly : UInt16) (n : Nat) (reg w : UInt16) :
    shiftBits poly n (reg ^^^ w) = feedBits poly reg (topBits n w) ^^^ shiftBits 0 n w := by
  induction n generalizing reg w with
  | zero => rfl
  | succ n ih =>
    have hzero : shiftBit 0 w = w <<< 1 := by
      rw [shiftBit_eq, ite_self, UInt16.xor_zero]
    have hstep : shiftBit poly (reg ^^^ w) = feedBit poly reg (topBit w) ^^^ (w <<< 1) := by
      rw [feedBit, shiftBit_xor, shiftBit_xor, shiftBit_eq poly w, UInt16.xor_assoc,
        UInt16.xor_comm (w <<< 1)]
      congr 2
      cases topBit w with
      | false => exact (shiftBit_zero poly).symm
      | true => exact UInt16.zero_xor.symm
    rw [shiftBits, hstep, ih, shiftBits, hzero]
    rfl

/-! ## Feeding bytes -/

theorem topBits_highByte (b : UInt8) :
    topBits 8 (b.toUInt16 <<< 8) = byteBits b ∧ shiftBits 0 8 (b.toUInt16 <<< 8) = 0 := by
  have h : ∀ n : Fin 256, topBits 8 ((UInt8.ofNat n).toUInt16 <<< 8) = byteBits (UInt8.ofNat n) ∧
      shiftBits 0 8 ((UInt8.ofNat n).toUInt16 <<< 8) = 0 := by decide +kernel
  have hb := h ⟨b.toNat, b.toNat_lt⟩
  rwa [UInt8.ofNat_toNat] at hb

theorem topBits_lowByte (b : UInt8) :
    topBits 8 b.toUInt16 = byteBits 0 ∧ shiftBits 0 8 b.toUInt16 = b.toUInt16 <<< 8 := by
  have h : ∀ n : Fin 256, topBits 8 (UInt8.ofNat n).toUInt16 = byteBits 0 ∧
      shiftBits 0 8 (UInt8.ofNat n).toUInt16 = (UInt8.ofNat n).toUInt16 <<< 8 := by decide +kernel
  have hb := h ⟨b.toNat, b.toNat_lt⟩
  rwa [UInt8.ofNat_toNat] at hb

theorem feedByte_eq_feedBits (poly reg : UInt16) (b : UInt8) :
    feedByte poly reg b = feedBits poly reg (byteBits b) := by
  rw [feedByte, shiftBits_xor_eq_feedBits, (topBits_highByte b).1, (topBits_highByte b).2,
    UInt16.xor_zero]

theorem bitwise_eq_feedBits (poly reg : UInt16) (d : Bytes) :
    bitwise poly reg d = feedBits poly reg (Bytes.bits d) := by
  induction d generalizing reg with
  | nil => rfl
  | cons b d ih =>
    rw [Bytes.bits_cons, feedBits_append, ← feedByte_eq_feedBits, ← ih]
    rfl

/-- The low byte has nothing to take out in eight shifts. -/
theorem shiftBits_lowByte (poly : UInt16) (b : UInt8) :
    shiftBits poly 8 b.toUInt16 = b.toUInt16 <<< 8 := by
  have h := shiftBits_xor_eq_feedBits poly 8 0 b.toUInt16
  have hzero : feedBits poly 0 (byteBits 0) = 0 := by
    rw [← feedByte_eq_feedBits]
    exact shiftBits_zero poly 8
  rwa [UInt16.zero_xor, (topBits_lowByte b).1, (topBits_lowByte b).2, hzero, UInt16.zero_xor] at h

theorem getLsbD_lowByte (w : UInt16) (i : Nat) :
    w.toUInt8.toUInt16.toBitVec.getLsbD i = (decide (i < 8) && w.toBitVec.getLsbD i) := by
  rw [UInt8.toBitVec_toUInt16, UInt16.toBitVec_toUInt8, BitVec.getLsbD_setWidth, BitVec.getLsbD_setWidth]
  by_cases h : i < 8
  · simp [h, (by omega : i < 16)]
  · simp [h]

theorem shiftLeft_eq_lowByte (w : UInt16) : w <<< 8 = w.toUInt8.toUInt16 <<< 8 := by
  refine UInt16.eq_of_toBitVec_eq (BitVec.eq_of_getLsbD_eq fun i hi => ?_)
  have hlt : i - 8 < 8 := by omega
  simp only [UInt16.toBitVec_shiftLeft, BitVec.shiftLeft_eq', BitVec.getLsbD_shiftLeft, getLsbD_lowByte]
  have h8 : ((8 : UInt16).toBitVec % 16).toNat = 8 := rfl
  rw [h8, decide_eq_true hlt, Bool.true_and]

theorem eq_highByte_xor_lowByte (w : UInt16) :
    w = ((w >>> 8).toUInt8.toUInt16 <<< 8) ^^^ w.toUInt8.toUInt16 := by
  rw [← shiftLeft_eq_lowByte]
  refine UInt16.eq_of_toBitVec_eq (BitVec.eq_of_getLsbD_eq fun i hi => ?_)
  rw [UInt16.toBitVec_xor, BitVec.getLsbD_xor, getLsbD_lowByte]
  have h8 : ((8 : UInt16).toBitVec % 16).toNat = 8 := rfl
  simp only [UInt16.toBitVec_shiftLeft, UInt16.toBitVec_shiftRight, BitVec.shiftLeft_eq',
    BitVec.ushiftRight_eq', BitVec.getLsbD_shiftLeft, BitVec.getLsbD_ushiftRight, h8]
  by_cases h : i < 8
  · simp [h]
  · have hsub : 8 + (i - 8) = i := by omega
    simp [h, hi, hsub]

theorem lookupByte_lookupTable (poly reg : UInt16) (b : UInt8) :
    lookupByte (lookupTable poly) reg b = feedByte poly reg b := by
  have hentry (c : UInt8) : (lookupTable poly).get ⟨c.toNat, c.toNat_lt⟩ =
      shiftBits poly 8 (c.toUInt16 <<< 8) := by
    have hlt : c.toNat < 256 := c.toNat_lt
    have hword : UInt16.ofNat c.toNat = c.toUInt16 := by simp
    change (lookupTable poly)[c.toNat] = _
    simp only [lookupTable, Vector.getElem_ofFn, hword]
  have hxor : reg ^^^ (b.toUInt16 <<< 8) =
      (((reg >>> 8).toUInt8 ^^^ b).toUInt16 <<< 8) ^^^ reg.toUInt8.toUInt16 := by
    rw [UInt8.toUInt16_xor, UInt16.shiftLeft_xor, UInt16.xor_assoc, UInt16.xor_comm (b.toUInt16 <<< 8),
      ← UInt16.xor_assoc, ← eq_highByte_xor_lowByte]
  rw [lookupByte, hentry, feedByte, hxor, shiftBits_xor, shiftBits_lowByte, ← shiftLeft_eq_lowByte,
    UInt16.xor_comm]

/-- The table does what the register does bit by bit. -/
theorem tabular_lookupTable (poly reg : UInt16) (d : Bytes) :
    tabular (lookupTable poly) reg d = bitwise poly reg d := by
  induction d generalizing reg with
  | nil => rfl
  | cons b d ih =>
    rw [tabular, List.foldl_cons, lookupByte_lookupTable]
    exact ih _

/-- **The tables are the registers.** The two checksums that run through a table are the registers that
are fed bit by bit, over every message. So is every register that runs through the table of its
generator. -/
theorem tables_eq_bitwise (d : Bytes) :
    bch.register d = bitwise 0x6F63 0x0000 d ∧ ccitt.register d = bitwise 0x1021 0xFFFF d ∧
      ∀ poly start, tabular (lookupTable poly) start d = bitwise poly start d :=
  ⟨tabular_lookupTable _ _ d, tabular_lookupTable _ _ d, fun poly start =>
    tabular_lookupTable poly start d⟩

/-! ## Feeding a word -/

theorem beBytes_two (w : UInt16) : beBytes 2 w.toNat = [(w >>> 8).toUInt8, w.toUInt8] := by
  have hhigh : UInt8.ofNat (w.toNat / 256) = (w >>> 8).toUInt8 := by
    rw [← UInt8.toNat_inj, UInt8.toNat_ofNat', UInt16.toNat_toUInt8, UInt16.toNat_shiftRight,
      Nat.shiftRight_eq_div_pow]
    rfl
  have hlow : UInt8.ofNat w.toNat = w.toUInt8 := by
    rw [← UInt8.toNat_inj, UInt8.toNat_ofNat', UInt16.toNat_toUInt8]
  rw [beBytes, beBytes, beBytes, hhigh, hlow]
  rfl

/-- A word as wide as the register is added to it as a whole. -/
theorem bitwise_word (poly reg w : UInt16) :
    bitwise poly reg (beBytes 2 w.toNat) = shiftBits poly 16 (reg ^^^ w) := by
  have hbytes : bitwise poly reg [(w >>> 8).toUInt8, w.toUInt8] =
      shiftBits poly 8 (shiftBits poly 8 (reg ^^^ ((w >>> 8).toUInt8.toUInt16 <<< 8)) ^^^
        (w.toUInt8.toUInt16 <<< 8)) := rfl
  rw [beBytes_two, hbytes, ← shiftBits_lowByte poly w.toUInt8, ← shiftBits_xor, UInt16.xor_assoc,
    ← eq_highByte_xor_lowByte, ← shiftBits_add]

end MeterRadio.Checksum
