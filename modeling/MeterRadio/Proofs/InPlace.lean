import MeterRadio.Bits.InPlace
import MeterRadio.Proofs.Field

/-!
# Fields written and bytes realigned, in place

Half way through a write, the bits of the field that were set are those of the value and all others are
as they were (`bit_storeBits`). So a write that fits changes the bits of its field and no others, and
fields that have no bit in common can be written in either order (`storeField_outcome`).

Half way through a realignment, the bytes that were passed are realigned and the bytes ahead are as they
were (`shiftBytes_eq_append`). So the whole string of bits is shifted (`realign_outcome`).
-/

namespace MeterRadio

variable {d e : Bytes} {offset len offset' len' n : Nat} {shift : UInt8} {value : UInt32}

/-! ## Fields -/

theorem lowBit_eq_testBit (value : UInt32) {i : Nat} (hlen : len ≤ 32) (hi : i < len) :
    lowBit value len i = value.toNat.testBit (len - 1 - i) := by
  have hshift : (UInt32.ofNat (len - 1 - i)).toNat % 32 = len - 1 - i := by
    rw [UInt32.toNat_ofNat', Nat.mod_mod_of_dvd _ (by decide), Nat.mod_eq_of_lt (by omega)]
  have hone : (1 : UInt32).toNat = 1 := rfl
  rw [lowBit, Nat.testBit_eq_decide_div_mod_eq, Bool.eq_iff_iff, beq_iff_eq, decide_eq_true_iff,
    ← UInt32.toNat_inj, UInt32.toNat_and, UInt32.toNat_shiftRight, hshift, hone, Nat.and_one_is_mod,
    Nat.shiftRight_eq_div_pow]

theorem storeBits_succ (d : Bytes) (offset len : Nat) (value : UInt32) (n : Nat) :
    storeBits d offset len value (n + 1) =
      Bytes.setBit (storeBits d offset len value n) (offset + n) (lowBit value len n) := by
  rw [storeBits, List.range_succ, List.foldl_append]
  rfl

@[simp] theorem length_storeBits (d : Bytes) (offset len : Nat) (value : UInt32) (n : Nat) :
    (storeBits d offset len value n).length = d.length := by
  induction n with
  | zero => rfl
  | succ n ih => rw [storeBits_succ, Bytes.length_setBit, ih]

/-- The bits that were set are those of the value, and all others are as they were. -/
theorem bit_storeBits (hfits : FieldFits d offset len) (hn : n ≤ len) (i : Nat) :
    Bytes.bit (storeBits d offset len value n) i =
      if offset ≤ i ∧ i < offset + n then value.toNat.testBit (offset + len - 1 - i)
      else Bytes.bit d i := by
  obtain ⟨-, hmax, hend⟩ := hfits
  induction n with
  | zero =>
    have hout : ¬(offset ≤ i ∧ i < offset + 0) := by omega
    rw [if_neg hout]
    rfl
  | succ n ih =>
    have hin : offset + n < 8 * (storeBits d offset len value n).length := by
      rw [length_storeBits]
      omega
    rw [storeBits_succ, Bytes.bit_setBit hin, lowBit_eq_testBit value hmax hn, ih (by omega)]
    -- a round changes one bit, the one behind those that were set before
    by_cases hlast : i = offset + n
    · have hidx : len - 1 - n = offset + len - 1 - i := by omega
      rw [if_pos hlast, if_pos (by omega), hidx]
    · rw [if_neg hlast]
      by_cases hset : offset ≤ i ∧ i < offset + n
      · rw [if_pos hset, if_pos (by omega)]
      · rw [if_neg hset, if_neg (by omega)]

theorem storeBits_eq_setBits (hfits : FieldFits d offset len) :
    storeBits d offset len value len = setBits d offset value.toNat len := by
  refine Bytes.ext_bit (by simp) fun i _ => ?_
  rw [bit_storeBits hfits (Nat.le_refl _), bit_setBits hfits.2.2]

theorem storeField_of_fits (hfits : FieldFits d offset len) (value : UInt32) :
    storeField d offset len value = (.ok (), storeBits d offset len value len) :=
  if_pos hfits

theorem storeField_of_not_fits (hfits : ¬FieldFits d offset len) (value : UInt32) :
    storeField d offset len value = (.error (rangeError d offset len), d) :=
  if_neg hfits

@[simp] theorem length_storeField (d : Bytes) (offset len : Nat) (value : UInt32) :
    (storeField d offset len value).2.length = d.length := by
  unfold storeField
  split <;> simp

theorem fieldFits_congr (h : d.length = e.length) : FieldFits d offset len ↔ FieldFits e offset len := by
  rw [FieldFits, FieldFits, h]

/-- Whether a field is written depends on the length of the buffer only. -/
theorem storeField_fst_congr (h : d.length = e.length) (value : UInt32) :
    (storeField d offset len value).1 = (storeField e offset len value).1 := by
  by_cases hfits : FieldFits d offset len
  · rw [storeField_of_fits hfits, storeField_of_fits ((fieldFits_congr h).mp hfits)]
  · rw [storeField_of_not_fits hfits, storeField_of_not_fits (mt (fieldFits_congr h).mpr hfits),
      rangeError, rangeError, h]

/-- A bit of the field is one of the value if the field is written. -/
theorem bit_storeField (d : Bytes) (offset len : Nat) (value : UInt32) (i : Nat) :
    Bytes.bit (storeField d offset len value).2 i =
      if FieldFits d offset len ∧ offset ≤ i ∧ i < offset + len then
        value.toNat.testBit (offset + len - 1 - i)
      else Bytes.bit d i := by
  by_cases hfits : FieldFits d offset len
  · rw [storeField_of_fits hfits, bit_storeBits hfits (Nat.le_refl _)]
    simp only [hfits, true_and]
  · rw [storeField_of_not_fits hfits, if_neg fun h => hfits h.1]

/-- Writes of fields that have no bit in common commute. -/
theorem storeField_comm (d : Bytes) (value value' : UInt32)
    (hapart : ∀ i, (i < offset ∨ offset + len ≤ i) ∨ i < offset' ∨ offset' + len' ≤ i) :
    (storeField (storeField d offset len value).2 offset' len' value').2 =
      (storeField (storeField d offset' len' value').2 offset len value).2 := by
  have hfits : FieldFits (storeField d offset' len' value').2 offset len ↔ FieldFits d offset len :=
    fieldFits_congr (length_storeField _ _ _ _)
  have hfits' : FieldFits (storeField d offset len value).2 offset' len' ↔ FieldFits d offset' len' :=
    fieldFits_congr (length_storeField _ _ _ _)
  refine Bytes.ext_bit (by simp) fun i _ => ?_
  simp only [bit_storeField, hfits, hfits']
  rcases hapart i with hout | hout
  · have hkeeps : ¬(FieldFits d offset len ∧ offset ≤ i ∧ i < offset + len) := by omega
    rw [if_neg hkeeps, if_neg hkeeps]
  · have hkeeps : ¬(FieldFits d offset' len' ∧ offset' ≤ i ∧ i < offset' + len') := by omega
    rw [if_neg hkeeps, if_neg hkeeps]

theorem numberAt_storeBits (hfits : FieldFits d offset len) :
    numberAt (storeBits d offset len value len) offset len = value.toNat % 2 ^ len := by
  refine Nat.eq_of_testBit_eq fun j => ?_
  rw [testBit_numberAt, Nat.testBit_mod_two_pow, bit_storeBits hfits (Nat.le_refl _)]
  by_cases hj : j < len
  · have hidx : offset + len - 1 - (offset + len - 1 - j) = j := by omega
    rw [if_pos (by omega), hidx]
  · rw [decide_eq_false hj, Bool.false_and, Bool.false_and]

/-- **A write changes the bits of its field and no others.** A range that is empty, wider than 32 bits
or not inside the buffer is refused with the numbers that describe it, and the buffer is left as it was.
Every other range holds the low bits of the value afterwards, whatever the bits above them are, and no
bit outside of the range has changed. Two ranges that have no bit in common can be written in either
order, whether or not one of them is refused. -/
theorem storeField_outcome (d : Bytes) (offset len : Nat) (value : UInt32) :
    (len = 0 ∨ 32 < len ∨ 8 * d.length < offset + len →
      storeField d offset len value = (.error ⟨offset, len, 8 * d.length⟩, d) ∧
      writeField d offset len value = .error ⟨offset, len, 8 * d.length⟩) ∧
    (0 < len → len ≤ 32 → offset + len ≤ 8 * d.length →
      ∃ e, storeField d offset len value = (.ok (), e) ∧ writeField d offset len value = .ok e ∧
        e.length = d.length ∧
        (readField e offset len).map UInt32.toNat = .ok (value.toNat % 2 ^ len) ∧
        ∀ i, (i < offset ∨ offset + len ≤ i) → Bytes.bit e i = Bytes.bit d i) ∧
    ∀ offset' len' value',
      (∀ i, (i < offset ∨ offset + len ≤ i) ∨ i < offset' ∨ offset' + len' ≤ i) →
      (storeField (storeField d offset len value).2 offset' len' value').2 =
        (storeField (storeField d offset' len' value').2 offset len value).2 ∧
      (storeField (storeField d offset' len' value').2 offset len value).1 =
        (storeField d offset len value).1 ∧
      (storeField (storeField d offset len value).2 offset' len' value').1 =
        (storeField d offset' len' value').1 := by
  refine ⟨fun hout => ?_, fun hpos hmax hend => ?_, fun offset' len' value' hapart => ?_⟩
  · have hfits : ¬FieldFits d offset len := not_fieldFits_iff.mpr hout
    exact ⟨storeField_of_not_fits hfits value, if_neg hfits⟩
  · have hfits : FieldFits d offset len := ⟨hpos, hmax, hend⟩
    have hread : FieldFits (storeBits d offset len value len) offset len :=
      (fieldFits_congr (length_storeBits _ _ _ _ _)).mpr hfits
    refine ⟨_, storeField_of_fits hfits value, ?_, length_storeBits _ _ _ _ _, ?_, fun i hi => ?_⟩
    · rw [writeField, if_pos hfits, storeBits_eq_setBits hfits]
    · rw [readField, if_pos hread, Except.map, toNat_fieldValue hread, numberAt_storeBits hfits]
    · rw [bit_storeBits hfits (Nat.le_refl _), if_neg (by omega)]
  · exact ⟨storeField_comm d value value' hapart, storeField_fst_congr (by simp) value,
      storeField_fst_congr (by simp) value'⟩

/-- A field of nine bits takes what it can of a longer value and leaves the bits around it alone, a field of
33 bits is refused, and two fields that share a byte are written in either order. -/
theorem storeField_outcome_nine :
    let d : Bytes := [0xFF, 0xFF, 0xFF, 0xFF]
    (0 < 9 ∧ 9 ≤ 32 ∧ 3 + 9 ≤ 8 * d.length ∧
      storeField d 3 9 0x10101 = (.ok (), [0xF0, 0x1F, 0xFF, 0xFF]) ∧
      ∃ e, storeField d 3 9 0x10101 = (.ok (), e) ∧
        (readField e 3 9).map UInt32.toNat = .ok (0x10101 % 2 ^ 9)) ∧
    ((33 = 0 ∨ 32 < 33 ∨ 8 * d.length < 0 + 33) ∧ storeField d 0 33 0 = (.error ⟨0, 33, 32⟩, d)) ∧
    (∀ i, (i < 3 ∨ 3 + 9 ≤ i) ∨ i < 12 ∨ 12 + 9 ≤ i) ∧
      (storeField (storeField d 3 9 6).2 12 9 5).2 = (storeField (storeField d 12 9 5).2 3 9 6).2 := by
  intro d
  obtain ⟨-, hwritten, -⟩ := storeField_outcome d 3 9 0x10101
  obtain ⟨e, hstore, -, -, hread, -⟩ := hwritten (by decide) (by decide) (by decide)
  have hrefused := ((storeField_outcome d 0 33 0).1 (by decide)).1
  have hapart (i : Nat) : (i < 3 ∨ 3 + 9 ≤ i) ∨ i < 12 ∨ 12 + 9 ≤ i := by omega
  have hcomm := ((storeField_outcome d 3 9 6).2.2 12 9 5 hapart).1
  exact ⟨⟨by decide, by decide, by decide, by decide, e, hstore, hread⟩, ⟨by decide, hrefused⟩, hapart,
    hcomm⟩

/-! ## Alignment -/

/-- Eight bits that lie in two bytes are put together by two shifts. -/
theorem straddle_eq_or (hpos : shift ≠ 0) (hlt : shift.toNat < 8) (b c : UInt8) :
    straddle shift.toNat b c = (b <<< shift) ||| (c >>> (8 - shift)) := by
  have hne : shift.toNat ≠ 0 := fun h => hpos (UInt8.toNat_inj.mp h)
  have hle : shift ≤ 8 := by
    rw [UInt8.le_iff_toNat_le]
    exact Nat.le_of_lt hlt
  have hleft : shift.toNat % 8 = shift.toNat := Nat.mod_eq_of_lt hlt
  have hright : (8 - shift).toNat % 8 = 8 - shift.toNat := by
    have height : (8 : UInt8).toNat = 8 := rfl
    rw [UInt8.toNat_sub_of_le _ _ hle, height]
    exact Nat.mod_eq_of_lt (by omega)
  have hpair : 256 * b.toNat + c.toNat = 2 ^ 8 * b.toNat + c.toNat := rfl
  rw [← UInt8.toNat_inj]
  refine Nat.eq_of_testBit_eq fun j => ?_
  rw [straddle, UInt8.toNat_ofNat', UInt8.toNat_or, UInt8.toNat_shiftLeft, UInt8.toNat_shiftRight, hleft,
    hright, hpair, Nat.testBit_mod_two_pow, Nat.testBit_shiftRight, Nat.testBit_two_pow_mul_add _ c.toNat_lt,
    Nat.testBit_or, Nat.testBit_mod_two_pow, Nat.testBit_shiftLeft, Nat.testBit_shiftRight]
  by_cases hj : j < shift.toNat
  · -- the bit comes from the byte behind
    have hback : 8 - shift.toNat + j < 8 := by omega
    simp [hback, show j < 8 by omega, show ¬shift.toNat ≤ j by omega]
  · have hback : ¬8 - shift.toNat + j < 8 := by omega
    have hidx : 8 - shift.toNat + j - 8 = j - shift.toNat := by omega
    rw [if_neg hback, hidx, testBit_eq_false_of_le c.toNat_lt (by omega : 8 ≤ 8 - shift.toNat + j)]
    simp [show shift.toNat ≤ j by omega]

/-- A realigned byte takes the rest of its bits from the byte behind it. -/
theorem byteAt_realign (d : Bytes) (s : Nat) {i : Nat} (hi : i < d.length) :
    byteAt (realign d s) i = straddle (s % 8) (byteAt d i) (byteAt d (i + 1)) := by
  induction d generalizing i with
  | nil => exact absurd hi (Nat.not_lt_zero i)
  | cons b r ih =>
    cases i with
    | zero => cases r <;> rfl
    | succ i => exact ih (Nat.lt_of_succ_lt_succ hi)

theorem shiftBytes_succ (shift : UInt8) (d : Bytes) (n : Nat) :
    shiftBytes shift d (n + 1) = shiftByte shift (shiftBytes shift d n) n := by
  rw [shiftBytes, List.range_succ, List.foldl_append]
  rfl

@[simp] theorem length_shiftBytes (shift : UInt8) (d : Bytes) (n : Nat) :
    (shiftBytes shift d n).length = d.length := by
  induction n with
  | zero => rfl
  | succ n ih => rw [shiftBytes_succ, shiftByte, List.length_set, ih]

/-- Setting the first byte behind a front. -/
theorem set_append_drop {r : Bytes} (b : UInt8) (hlen : r.length = n) (hn : n < d.length) :
    (r ++ d.drop n).set n b = (r ++ [b]) ++ d.drop (n + 1) := by
  subst hlen
  rw [List.drop_eq_getElem_cons hn, List.set_append_right _ _ (Nat.le_refl _), Nat.sub_self,
    List.set_cons_zero, List.append_assoc, List.singleton_append]

theorem byteAt_append_drop {r : Bytes} {i : Nat} (hlen : r.length = n) (hi : n ≤ i) :
    byteAt (r ++ d.drop n) i = byteAt d i := by
  subst hlen
  have hidx : r.length + (i - r.length) = i := by omega
  rw [byteAt, byteAt, List.getD_append_right _ _ _ _ hi, List.getD_eq_getElem?_getD, List.getElem?_drop,
    hidx, List.getD_eq_getElem?_getD]

theorem take_realign_succ (s : Nat) (hn : n < d.length) :
    (realign d s).take (n + 1) =
      (realign d s).take n ++ [straddle (s % 8) (byteAt d n) (byteAt d (n + 1))] := by
  have hn' : n < (realign d s).length := by rwa [length_realign]
  rw [List.take_succ_eq_append_getElem hn', ← byteAt_realign d s hn, byteAt, List.getD_eq_getElem _ _ hn']

/-- The bytes that were passed are realigned, and the bytes ahead are as they were. -/
theorem shiftBytes_eq_append (hpos : shift ≠ 0) (hlt : shift.toNat < 8) (hn : n ≤ d.length) :
    shiftBytes shift d n = (realign d shift.toNat).take n ++ d.drop n := by
  induction n with
  | zero => rfl
  | succ n ih =>
    have hlen : ((realign d shift.toNat).take n).length = n := by
      rw [List.length_take, length_realign]
      omega
    rw [shiftBytes_succ, ih (by omega), shiftByte, byteAt_append_drop hlen (Nat.le_refl n),
      byteAt_append_drop hlen (Nat.le_succ n), ← straddle_eq_or hpos hlt, set_append_drop _ hlen hn,
      take_realign_succ _ hn, Nat.mod_eq_of_lt hlt]

theorem realign_zero (d : Bytes) : realign d 0 = d :=
  Bytes.ext_bit (length_realign d 0) fun i _ => bit_realign d 0 i

theorem realign_mod (d : Bytes) (s : Nat) : realign d (s % 8) = realign d s :=
  Bytes.ext_bit (by simp) fun i _ => by rw [bit_realign, bit_realign, Nat.mod_mod]

theorem shiftBytes_length (hpos : shift ≠ 0) (hlt : shift.toNat < 8) :
    shiftBytes shift d d.length = realign d shift.toNat := by
  rw [shiftBytes_eq_append hpos hlt (Nat.le_refl _), List.drop_length, List.append_nil,
    List.take_of_length_le (Nat.le_of_eq (length_realign _ _))]

/-- Nothing is behind the last byte, which takes in zeros. -/
theorem shiftByte_last (shift : UInt8) (hlast : d.length = n + 1) :
    shiftByte shift d n = d.set n (byteAt d n <<< shift) := by
  have hbehind : byteAt d (n + 1) = 0 := List.getD_eq_default _ _ (Nat.le_of_eq hlast)
  rw [shiftByte, hbehind, UInt8.zero_shiftRight, UInt8.or_zero]

/-- Shifting byte after byte in place realigns the buffer. -/
theorem realignInPlace_eq (d : Bytes) (shift : UInt8) :
    realignInPlace d shift = realign d shift.toNat := by
  have hmod : (shift % 8).toNat = shift.toNat % 8 := rfl
  have hlt : (shift % 8).toNat < 8 := Nat.mod_lt _ (by decide)
  rw [← realign_mod, ← hmod]
  unfold realignInPlace
  generalize shift % 8 = shift at hlt
  by_cases hkeeps : shift = 0 ∨ d = []
  · rw [if_pos hkeeps]
    rcases hkeeps with rfl | rfl
    · exact (realign_zero d).symm
    · rfl
  · rw [if_neg hkeeps]
    obtain ⟨hpos, hne⟩ := not_or.mp hkeeps
    -- the last byte is shifted as those before it are, so that the loop goes over all bytes
    obtain ⟨last, hlast⟩ := Nat.exists_eq_succ_of_ne_zero (mt List.length_eq_zero_iff.mp hne)
    have hpred : d.length - 1 = last := by omega
    dsimp only
    rw [hpred, ← shiftByte_last shift ((length_shiftBytes shift d last).trans hlast), ← shiftBytes_succ,
      ← Nat.succ_eq_add_one, ← hlast, shiftBytes_length hpos hlt]

theorem bitsAt_realign (d : Bytes) (s first len : Nat) :
    bitsAt (realign d s) first len = bitsAt d (first + s % 8) len := by
  unfold bitsAt
  refine List.map_congr_left fun i _ => ?_
  rw [bit_realign, Nat.add_right_comm]

/-- A field is found `s % 8` bits earlier. -/
theorem readField_realign {s first : Nat} (h : FieldFits d (first + s % 8) len) :
    readField (realign d s) first len = readField d (first + s % 8) len := by
  have hfits : FieldFits (realign d s) first len := by
    obtain ⟨hpos, hmax, hend⟩ := h
    exact ⟨hpos, hmax, by rw [length_realign]; omega⟩
  have hvalue : fieldValue (realign d s) first len = fieldValue d (first + s % 8) len := by
    rw [← UInt32.toNat_inj, toNat_fieldValue hfits, toNat_fieldValue h, numberAt, numberAt, bitsAt_realign]
  rw [readField, readField, if_pos hfits, if_pos h, hvalue]

/-- Shifts by less than a byte in all add up. -/
theorem realign_realign (d : Bytes) {s t : Nat} (h : s % 8 + t % 8 < 8) :
    realign (realign d s) t = realign d (s + t) := by
  refine Bytes.ext_bit (by simp) fun i _ => ?_
  have hidx : i + t % 8 + s % 8 = i + (s + t) % 8 := by omega
  rw [bit_realign, bit_realign, bit_realign, hidx]

/-- **Realigning shifts the whole string of bits to the left.** Done byte by byte in place, by any number
of bits taken modulo eight, it makes bit `i + shift % 8` of the buffer bit `i`, and what comes in at the
end are zeros. So every field that lay inside the buffer is read `shift % 8` bits earlier, and two shifts
that are less than a byte together are one. -/
theorem realign_outcome (d : Bytes) (shift : UInt8) :
    realignInPlace d shift = realign d shift.toNat ∧
    (realign d shift.toNat).length = d.length ∧
    (∀ i, Bytes.bit (realign d shift.toNat) i = Bytes.bit d (i + shift.toNat % 8)) ∧
    (∀ i, 8 * d.length ≤ i + shift.toNat % 8 → Bytes.bit (realign d shift.toNat) i = false) ∧
    (∀ first len, 0 < len → len ≤ 32 → first + shift.toNat % 8 + len ≤ 8 * d.length →
      ∃ value, readField (realign d shift.toNat) first len = .ok value ∧
        readField d (first + shift.toNat % 8) len = .ok value) ∧
    ∀ next : UInt8, shift.toNat + next.toNat ≤ 7 →
      realignInPlace (realignInPlace d shift) next = realignInPlace d (shift + next) := by
  refine ⟨realignInPlace_eq d shift, length_realign d _, bit_realign d _, fun i hi => ?_,
    fun first len hpos hmax hend => ?_, fun next hsum => ?_⟩
  · rw [bit_realign, Bytes.bit_eq_false hi]
  · have hfits : FieldFits d (first + shift.toNat % 8) len := ⟨hpos, hmax, hend⟩
    exact ⟨_, (readField_realign hfits).trans (if_pos hfits), if_pos hfits⟩
  · have hadd : (shift + next).toNat = shift.toNat + next.toNat := by
      rw [UInt8.toNat_add]
      exact Nat.mod_eq_of_lt (by omega)
    rw [realignInPlace_eq, realignInPlace_eq, realignInPlace_eq, hadd, realign_realign d (by omega)]

/-- Two bytes that were captured three bits late; a shift by eleven is one by three, and two shifts by one
and two bits come to the same. -/
theorem realign_outcome_three :
    let d : Bytes := [0x1F, 0x2A, 0x60]
    realignInPlace d 11 = [0xF9, 0x53, 0x00] ∧
      (8 * d.length ≤ 21 + (11 : UInt8).toNat % 8 ∧ Bytes.bit (realign d (11 : UInt8).toNat) 21 = false) ∧
      (0 < 16 ∧ 16 ≤ 32 ∧ 0 + (11 : UInt8).toNat % 8 + 16 ≤ 8 * d.length ∧
        ∃ value, readField (realign d (11 : UInt8).toNat) 0 16 = .ok value ∧
          readField d (0 + (11 : UInt8).toNat % 8) 16 = .ok value) ∧
      (1 : UInt8).toNat + (2 : UInt8).toNat ≤ 7 ∧
        realignInPlace (realignInPlace d 1) 2 = realignInPlace d (1 + 2) := by
  intro d
  obtain ⟨-, -, -, hzero, hread, -⟩ := realign_outcome d 11
  obtain ⟨-, -, -, -, -, hsum⟩ := realign_outcome d 1
  exact ⟨by decide, ⟨by decide, hzero 21 (by decide)⟩,
    ⟨by decide, by decide, by decide, hread 0 16 (by decide) (by decide) (by decide)⟩, by decide,
    hsum 2 (by decide)⟩

end MeterRadio
