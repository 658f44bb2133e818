import MeterRadio.Proofs.Number

/-!
# Fields, read from bits

A field is read from whole bytes, but what is read is the number in its bits: the word that gathers the
bytes has room for all of them (`toNat_fieldWord`), and reading the bits one by one comes to the same
(`readField_outcome`). Packed fields are read up to the first one that does not fit
(`readPacked_eq_error`); where all of them fit, writing values and reading them back gives the bits of
the values that were sent (`packed_outcome`).
-/

namespace MeterRadio

variable {d e : Bytes} {offset len width n : Nat}

/-! ## One field -/

theorem not_fieldFits_iff :
    ¬FieldFits d offset len ↔ len = 0 ∨ 32 < len ∨ 8 * d.length < offset + len := by
  unfold FieldFits maxFieldBits
  omega

theorem toNat_fieldValue (h : FieldFits d offset len) :
    (fieldValue d offset len).toNat = numberAt d offset len :=
  eq_numberAt fun j => testBit_fieldValue h j

/-- Bits taken in one after another are a number as long as the word has room for them. -/
theorem toNat_foldl_bits (bits : List Bool) (h : bits.length ≤ 32) :
    (bits.foldl (fun (w : UInt32) b => (w <<< 1) ||| b.toUInt32) 0).toNat = bitsNat bits := by
  induction bits using List.reverseRecOn with
  | nil => rfl
  | append_singleton bits b ih =>
    have hlen : (bits ++ [b]).length = bits.length + 1 := List.length_append
    have ih := ih (by omega)
    have hlt : bitsNat bits < 2 ^ bits.length := by
      refine Nat.lt_pow_two_of_testBit _ fun j hj => ?_
      rw [testBit_bitsNat, List.getD_eq_getElem?_getD, List.getElem?_eq_none (by simpa using hj)]
      rfl
    have hpow : 2 ^ bits.length ≤ 2 ^ 31 := Nat.pow_le_pow_right (by omega) (by omega)
    have hshift : bitsNat bits <<< 1 % 2 ^ 32 = bitsNat bits <<< 1 :=
      Nat.mod_eq_of_lt (by rw [Nat.shiftLeft_eq]; omega)
    have hone : (1 : UInt32).toNat % 32 = 1 := rfl
    have hbit : b.toUInt32.toNat = b.toNat := by cases b <;> rfl
    rw [List.foldl_append, List.foldl_cons, List.foldl_nil, UInt32.toNat_or, UInt32.toNat_shiftLeft, ih,
      hone, hshift, hbit, ← Nat.shiftLeft_add_eq_or_of_lt (Bool.toNat_lt b), bitsNat_append_singleton,
      Nat.shiftLeft_eq, Nat.mul_comm]

theorem toNat_bitwiseValue (h : len ≤ 32) : (bitwiseValue d offset len).toNat = numberAt d offset len :=
  toNat_foldl_bits _ (by rwa [length_bitsAt])

/-- No bit of a byte that holds a field is lost in the word. -/
theorem toNat_fieldWord (h : FieldFits d offset len) :
    (fieldWord d offset len).toNat = numberAt d (8 * (offset / 8)) (8 * fieldBytes offset len) := by
  obtain ⟨hpos, hmax, hend⟩ := h
  have hbytes : fieldBytes offset len = (offset + len - 1) / 8 + 1 - offset / 8 := rfl
  have hinside : offset / 8 + fieldBytes offset len ≤ d.length := by omega
  rw [maxFieldBits] at hmax
  rw [fieldWord, toNat_foldl_word _ (by rw [length_slice hinside]; omega)]
  exact beField_eq_numberAt hinside

/-- **A field is read as if its bits were taken one by one.** Reading fails exactly for a range that is
empty, wider than 32 bits or not inside the byte string, with the numbers that describe it. Every other
range is read as the number that its bits spell, most significant first, and so as the reader does that
takes them in one after another. The word in between holds every bit of the bytes it gathers. -/
theorem readField_outcome (d : Bytes) (offset len : Nat) :
    (∀ e, readField d offset len = .error e ↔
      (len = 0 ∨ 32 < len ∨ 8 * d.length < offset + len) ∧ e = ⟨offset, len, 8 * d.length⟩) ∧
    (0 < len → len ≤ 32 → offset + len ≤ 8 * d.length →
      readField d offset len = .ok (bitwiseValue d offset len) ∧
      (bitwiseValue d offset len).toNat = numberAt d offset len ∧
      (fieldWord d offset len).toNat = numberAt d (8 * (offset / 8)) (8 * fieldBytes offset len)) := by
  constructor
  · intro e
    rw [← not_fieldFits_iff]
    unfold readField
    constructor
    · intro h
      split at h
      · cases h
      · rename_i hfits
        cases h
        exact ⟨hfits, rfl⟩
    · rintro ⟨hfits, rfl⟩
      rw [if_neg hfits]
      rfl
  · intro hpos hmax hend
    have hfits : FieldFits d offset len := ⟨hpos, hmax, hend⟩
    have hvalue : fieldValue d offset len = bitwiseValue d offset len := by
      rw [← UInt32.toNat_inj, toNat_fieldValue hfits, toNat_bitwiseValue hmax]
    refine ⟨?_, toNat_bitwiseValue hmax, toNat_fieldWord hfits⟩
    rw [readField, if_pos hfits, hvalue]

/-- A field of 32 bits that starts in the middle of a byte is gathered from five bytes. -/
theorem readField_outcome_five :
    let d : Bytes := [0x0F, 0xFF, 0x00, 0xFF, 0xF0]
    0 < 32 ∧ 32 ≤ 32 ∧ 4 + 32 ≤ 8 * d.length ∧ readField d 4 32 = .ok 0xFFF00FFF := by
  intro d
  have hread := ((readField_outcome d 4 32).2 (by decide) (by decide) (by decide)).1
  have hvalue : bitwiseValue d 4 32 = 0xFFF00FFF := by decide
  exact ⟨by decide, by decide, by decide, hvalue ▸ hread⟩

/-! ## Packed fields -/

theorem readPacked_succ_of_ok {values : Vector UInt16 n}
    (hinit : readPacked d offset width n = .ok values) (hfits : FieldFits d (offset + n * width) width) :
    readPacked d offset width (n + 1) =
      .ok (values.push (fieldValue d (offset + n * width) width).toUInt16) := by
  rw [readPacked, hinit, readField, if_pos hfits]
  rfl

/-- Fields that fit are all read, and of each the low 16 bits are kept. -/
theorem exists_readPacked_eq_ok (h : ∀ i < n, FieldFits d (offset + i * width) width) :
    ∃ values, readPacked d offset width n = .ok values ∧
      ∀ i (hi : i < n), values[i].toNat = numberAt d (offset + i * width) width % 2 ^ 16 := by
  induction n with
  | zero => exact ⟨#v[], rfl, fun i hi => absurd hi (Nat.not_lt_zero i)⟩
  | succ n ih =>
    obtain ⟨init, hinit, hvalues⟩ := ih fun i hi => h i (by omega)
    have hfits := h n (Nat.lt_succ_self n)
    refine ⟨_, readPacked_succ_of_ok hinit hfits, fun i hi => ?_⟩
    by_cases hin : i < n
    · rw [Vector.getElem_push_lt hin]
      exact hvalues i hin
    · obtain rfl : i = n := by omega
      rw [Vector.getElem_push_eq, UInt32.toNat_toUInt16, toNat_fieldValue hfits]

/-- The first field that does not fit is the one that is reported. -/
theorem readPacked_eq_error {i : Nat} (hi : i < n)
    (hbefore : ∀ j < i, FieldFits d (offset + j * width) width)
    (hfits : ¬FieldFits d (offset + i * width) width) :
    readPacked d offset width n = .error (rangeError d (offset + i * width) width) := by
  induction n with
  | zero => exact absurd hi (Nat.not_lt_zero i)
  | succ n ih =>
    by_cases hin : i < n
    · rw [readPacked, ih hin]
      rfl
    · obtain rfl : i = n := by omega
      obtain ⟨init, hinit, -⟩ := exists_readPacked_eq_ok hbefore
      rw [readPacked, hinit, readField, if_neg hfits]
      rfl

/-- All fields fit if the last one does. -/
theorem forall_fieldFits_iff (hn : 0 < n) :
    (∀ i < n, FieldFits d (offset + i * width) width) ↔
      0 < width ∧ width ≤ 32 ∧ offset + n * width ≤ 8 * d.length := by
  constructor
  · intro h
    obtain ⟨hpos, hmax, hend⟩ := h (n - 1) (by omega)
    refine ⟨hpos, hmax, ?_⟩
    have hlast : (n - 1) * width + width = n * width := by
      rw [← Nat.succ_mul]
      congr 1
      omega
    omega
  · rintro ⟨hpos, hmax, hend⟩ i hi
    have hle : (i + 1) * width ≤ n * width := Nat.mul_le_mul_right width hi
    rw [Nat.succ_mul] at hle
    exact ⟨hpos, hmax, by omega⟩

/-- Either all fields fit or there is a first one that does not. -/
theorem forall_fieldFits_or (d : Bytes) (offset width n : Nat) :
    (∀ i < n, FieldFits d (offset + i * width) width) ∨
      ∃ i < n, (∀ j < i, FieldFits d (offset + j * width) width) ∧
        ¬FieldFits d (offset + i * width) width := by
  induction n with
  | zero => exact Or.inl fun i hi => absurd hi (Nat.not_lt_zero i)
  | succ n ih =>
    rcases ih with hall | ⟨i, hi, hbefore, hfits⟩
    · by_cases hlast : FieldFits d (offset + n * width) width
      · refine Or.inl fun i hi => ?_
        rcases Nat.lt_succ_iff_lt_or_eq.mp hi with hi | rfl
        · exact hall i hi
        · exact hlast
      · exact Or.inr ⟨n, Nat.lt_succ_self n, hall, hlast⟩
    · exact Or.inr ⟨i, by omega, hbefore, hfits⟩

/-- What is read of packed values is what is sent of them. -/
theorem Packs.numberAt_eq {values : List UInt16} (h : Packs e offset width values) {i : Nat}
    (hi : i < values.length) :
    numberAt e (offset + i * width) width = values[i].toNat % 2 ^ width := by
  refine Nat.eq_of_testBit_eq fun j => ?_
  rw [testBit_numberAt, Nat.testBit_mod_two_pow]
  by_cases hj : j < width
  · have hidx : offset + i * width + width - 1 - j = offset + i * width + (width - 1 - j) := by omega
    have hback : width - 1 - (width - 1 - j) = j := by omega
    rw [hidx, h i hi (width - 1 - j) (by omega), hback]
  · rw [decide_eq_false hj, Bool.false_and, Bool.false_and]

/-- **Packed fields come back as they were sent.** Values in consecutive fields of 1 to 16 bits that end
inside the byte string are all written; reading them gives each value cut to the width of a field, and
no bit outside of the fields changes. Reading one or more fields of any width succeeds exactly if the
width is 1 to 32 and the last field ends inside the byte string, and keeps of each field the low 16 bits
of its number. Otherwise the first field that does not fit is reported, which is the very first one if
no field of this width can be read at all. -/
theorem packed_outcome (d : Bytes) (offset width : Nat) :
    (∀ values : List UInt16, 0 < width → width ≤ 16 → offset + values.length * width ≤ 8 * d.length →
      ∃ e read, writePacked d offset width values = .ok e ∧
        readPacked e offset width values.length = .ok read ∧
        (∀ i (hi : i < values.length), read[i].toNat = values[i].toNat % 2 ^ width) ∧
        e.length = d.length ∧
        ∀ i, (i < offset ∨ offset + values.length * width ≤ i) → Bytes.bit e i = Bytes.bit d i) ∧
    ∀ n, 0 < n →
      ((∃ read, readPacked d offset width n = .ok read) ↔
        0 < width ∧ width ≤ 32 ∧ offset + n * width ≤ 8 * d.length) ∧
      (∀ read, readPacked d offset width n = .ok read → ∀ i (hi : i < n),
        read[i].toNat = numberAt d (offset + i * width) width % 2 ^ 16) ∧
      (¬(0 < width ∧ width ≤ 32 ∧ offset + n * width ≤ 8 * d.length) →
        ∃ i < n, (∀ j < i, FieldFits d (offset + j * width) width) ∧
          ¬FieldFits d (offset + i * width) width ∧ (¬(0 < width ∧ width ≤ 32) → i = 0) ∧
          readPacked d offset width n = .error ⟨offset + i * width, width, 8 * d.length⟩) := by
  constructor
  · intro values hpos hmax hend
    obtain ⟨e, hwrite, hlen, hpacks, hkeeps⟩ :=
      writePacked_ok hpos (Nat.le_trans hmax (by decide : 16 ≤ maxFieldBits)) hend
    have hfits (i : Nat) (hi : i < values.length) : FieldFits e (offset + i * width) width :=
      (forall_fieldFits_iff (by omega)).mpr ⟨hpos, by omega, by rwa [hlen]⟩ i hi
    obtain ⟨read, hread, hvalues⟩ := exists_readPacked_eq_ok hfits
    refine ⟨e, read, hwrite, hread, fun i hi => ?_, hlen, hkeeps⟩
    have hpow : 2 ^ width ∣ 2 ^ 16 := Nat.pow_dvd_pow 2 hmax
    have hlt : values[i].toNat % 2 ^ width < 2 ^ 16 :=
      Nat.lt_of_le_of_lt (Nat.mod_le _ _) values[i].toNat_lt
    rw [hvalues i hi, hpacks.numberAt_eq hi, Nat.mod_eq_of_lt hlt]
  · intro n hn
    rw [← forall_fieldFits_iff hn]
    rcases forall_fieldFits_or d offset width n with hall | ⟨i, hi, hbefore, hfits⟩
    · obtain ⟨read, hread, hvalues⟩ := exists_readPacked_eq_ok hall
      refine ⟨⟨fun _ => hall, fun _ => ⟨read, hread⟩⟩, ?_, fun h => absurd hall h⟩
      intro read' hread'
      rw [hread] at hread'
      cases hread'
      exact hvalues
    · have herror := readPacked_eq_error hi hbefore hfits
      have hread (read : Vector UInt16 n) : readPacked d offset width n ≠ .ok read := by
        rw [herror]
        nofun
      have hfirst (hwidth : ¬(0 < width ∧ width ≤ 32)) : i = 0 := by
        by_contra hne
        obtain ⟨hpos, hmax, -⟩ := hbefore 0 (Nat.pos_of_ne_zero hne)
        exact hwidth ⟨hpos, hmax⟩
      refine ⟨⟨?_, fun hall => absurd (hall i hi) hfits⟩, ?_, ?_⟩
      · rintro ⟨read, hok⟩
        exact absurd hok (hread read)
      · intro read hok
        exact absurd hok (hread read)
      · exact fun _ => ⟨i, hi, hbefore, hfits, hfirst, herror⟩

/-- Three values of nine bits between two bits that stay as they are; a fourth one does not fit. -/
theorem packed_outcome_nine :
    let d : Bytes := [0xFF, 0xFF, 0xFF, 0xFF]
    let values : List UInt16 := [0, 0x155, 0x3FF]
    0 < 9 ∧ 9 ≤ 16 ∧ 3 + values.length * 9 ≤ 8 * d.length ∧ 0 < 4 ∧
      ¬(0 < 9 ∧ 9 ≤ 32 ∧ 3 + 4 * 9 ≤ 8 * d.length) ∧
      (∃ e read, writePacked d 3 9 values = .ok e ∧ readPacked e 3 9 values.length = .ok read ∧
        ∀ i (hi : i < values.length), read[i].toNat = values[i].toNat % 2 ^ 9) ∧
      ∃ i < 4, ¬FieldFits d (3 + i * 9) 9 ∧
        readPacked d 3 9 4 = .error ⟨3 + i * 9, 9, 32⟩ := by
  intro d values
  obtain ⟨hsent, hfields⟩ := packed_outcome d 3 9
  obtain ⟨e, read, hwrite, hread, hvalues, -⟩ := hsent values (by decide) (by decide) (by decide)
  obtain ⟨-, -, herror⟩ := hfields 4 (by decide)
  obtain ⟨i, hi, -, hfits, -, hread'⟩ := herror (by decide)
  exact ⟨by decide, by decide, by decide, by decide, by decide, ⟨e, read, hwrite, hread, hvalues⟩,
    i, hi, hfits, hread'⟩

end MeterRadio
