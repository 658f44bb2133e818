import MeterRadio.Bits.Basic

/-!
# Byte alignment

A message is captured wherever its first bit falls, up to seven bits into its first byte. Shifting
the whole byte string left by that many bits restores the byte boundaries of the sender;
`bit_realign` says that this is exactly what `realign` does.
-/

namespace MeterRadio

/-- The eight bits that start `shift ≤ 8` bits into `b` and continue in the next byte `c`. -/
def straddle (shift : Nat) (b c : UInt8) : UInt8 :=
  UInt8.ofNat ((256 * b.toNat + c.toNat) >>> (8 - shift))

/-- Shifts the bit string left by `shift % 8` bits and fills up with zeros on the right. -/
def realign (d : Bytes) (shift : Nat) : Bytes :=
  match d with
  | [] => []
  | b :: r => straddle (shift % 8) b (r.headD 0) :: realign r shift

@[simp] theorem length_realign (d : Bytes) (shift : Nat) : (realign d shift).length = d.length := by
  induction d with
  | nil => rfl
  | cons b r ih => simp [realign, ih]

/-- Bit `i` of a straddling byte is bit `i + shift` of the two bytes together. -/
theorem byteBit_straddle {shift i : Nat} (hs : shift < 8) (hi : i < 8) (b c : UInt8) :
    byteBit (straddle shift b c) i =
      if i + shift < 8 then byteBit b (i + shift) else byteBit c (i + shift - 8) := by
  have hb := b.toNat_lt
  have hc := c.toNat_lt
  have hpow : 256 * b.toNat + c.toNat = 2 ^ 8 * b.toNat + c.toNat := by omega
  simp only [byteBit, straddle, UInt8.toNat_ofNat', Nat.testBit_mod_two_pow, Nat.testBit_shiftRight,
    hpow, Nat.testBit_two_pow_mul_add _ hc]
  by_cases h : i + shift < 8
  · have h1 : ¬(8 - shift + (7 - i) < 8) := by omega
    have h2 : 8 - shift + (7 - i) - 8 = 7 - (i + shift) := by omega
    simp [h, h1, h2, hi, show 7 - i < 8 by omega]
  · have h1 : 8 - shift + (7 - i) < 8 := by omega
    have h2 : 8 - shift + (7 - i) = 7 - (i + shift - 8) := by omega
    have h3 : i + shift - 8 < 8 := by omega
    rw [if_neg h, if_pos h1, h2]
    simp [hi, h3, show 7 - i < 8 by omega]

/-- Realigning is a left shift of the whole bit string. -/
theorem bit_realign (d : Bytes) (shift i : Nat) :
    Bytes.bit (realign d shift) i = Bytes.bit d (i + shift % 8) := by
  have hs : shift % 8 < 8 := Nat.mod_lt _ (by omega)
  induction d generalizing i with
  | nil => simp [realign, Bytes.bit, byteBit]
  | cons b r ih =>
    by_cases hi : i < 8
    · have h0 : i / 8 = 0 := by omega
      have hm : i % 8 = i := by omega
      simp only [Bytes.bit, realign, h0, hm, List.getD_cons_zero]
      rw [byteBit_straddle hs hi]
      by_cases h : i + shift % 8 < 8
      · have h1 : (i + shift % 8) / 8 = 0 := by omega
        have h2 : (i + shift % 8) % 8 = i + shift % 8 := by omega
        simp [h, h1, h2]
      · have h1 : (i + shift % 8) / 8 = 1 := by omega
        have h2 : (i + shift % 8) % 8 = i + shift % 8 - 8 := by omega
        rw [if_neg h, h1, h2]
        cases r <;> simp
    · obtain ⟨k, rfl⟩ : ∃ k, i = k + 8 := ⟨i - 8, by omega⟩
      have h1 : (k + 8) / 8 = k / 8 + 1 := by omega
      have h2 : (k + 8 + shift % 8) / 8 = (k + shift % 8) / 8 + 1 := by omega
      have h3 : (k + 8 + shift % 8) % 8 = (k + shift % 8) % 8 := by omega
      have := ih k
      simp only [Bytes.bit] at this
      simp only [Bytes.bit, realign, h1, h2, h3, List.getD_cons_succ, Nat.add_mod_right, this]

end MeterRadio
