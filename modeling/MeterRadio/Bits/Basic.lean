/-!
# Byte strings and their bits

A message on the air is a string of bits, most significant bit of each byte first. It is kept as a
list of bytes, and `Bytes.bit d i` is bit `i` of the string: bit 0 is the most significant bit of
the first byte. Everything that is done to packed bits in this library is described by what it does
to this view.

The module also holds the two byte orders in which numbers are laid out: `beNat` and `beBytes` put
the most significant byte first, `leNat` and `leBytes` the least significant one.
-/

namespace MeterRadio

/-- A byte string, first byte first. -/
abbrev Bytes := List UInt8

/-! ## One byte -/

/-- Bit `i` of a byte, counted from the most significant; there is no bit past 7. -/
def byteBit (b : UInt8) (i : Nat) : Bool :=
  i < 8 && b.toNat.testBit (7 - i)

/-- The byte with bit `i < 8` set to `v` and all other bits as they were. -/
def setByteBit (b : UInt8) (i : Nat) (v : Bool) : UInt8 :=
  let mask : UInt8 := 0x80 >>> UInt8.ofNat i
  if v then b ||| mask else b &&& ~~~mask

/-- The eight bits of a byte, most significant first. -/
def byteBits (b : UInt8) : List Bool :=
  (List.range 8).map (byteBit b)

@[simp] theorem length_byteBits (b : UInt8) : (byteBits b).length = 8 := by
  simp [byteBits]

theorem byteBit_eq_getLsbD (b : UInt8) (i : Nat) :
    byteBit b i = (decide (i < 8) && b.toBitVec.getLsbD (7 - i)) := rfl

/-- Setting a bit changes this bit and no other. -/
theorem byteBit_setByteBit (b : UInt8) {i : Nat} (hi : i < 8) (j : Nat) (v : Bool) :
    byteBit (setByteBit b i v) j = if j = i then v else byteBit b j := by
  have mask : ∀ i j : Fin 8,
      (0x80 >>> UInt8.ofNat i : UInt8).toBitVec.getLsbD (7 - j) = decide (j = i) := by decide
  by_cases hj : j < 8
  · have hmask := mask ⟨i, hi⟩ ⟨j, hj⟩
    simp only [Fin.mk.injEq] at hmask
    have h7 : 7 - j < 8 := by omega
    cases v
    · simp only [setByteBit, byteBit_eq_getLsbD, Bool.false_eq_true, if_false, UInt8.toBitVec_and,
        UInt8.toBitVec_not, BitVec.getLsbD_and, BitVec.getLsbD_not, hmask]
      by_cases h : j = i <;> simp [h, h7]
    · simp only [setByteBit, byteBit_eq_getLsbD, if_true, UInt8.toBitVec_or, BitVec.getLsbD_or,
        hmask]
      by_cases h : j = i <;> simp [h, hi]
  · have : j ≠ i := by omega
    simp [byteBit, hj, this]

/-! ## Byte strings -/

namespace Bytes

/-- Bit `i` of a byte string; there are no bits past its end. -/
def bit (d : Bytes) (i : Nat) : Bool :=
  byteBit (d.getD (i / 8) 0) (i % 8)

/-- All bits of a byte string in order. -/
def bits (d : Bytes) : List Bool :=
  d.flatMap byteBits

/-- The byte string with bit `i` set to `v`; a position past the end changes nothing. -/
def setBit (d : Bytes) (i : Nat) (v : Bool) : Bytes :=
  d.modify (i / 8) fun b => setByteBit b (i % 8) v

@[simp] theorem length_bits (d : Bytes) : (bits d).length = 8 * d.length := by
  induction d with
  | nil => rfl
  | cons b d ih => simp_all [bits]; omega

@[simp] theorem length_setBit (d : Bytes) (i : Nat) (v : Bool) :
    (setBit d i v).length = d.length := by
  simp [setBit]

/-- There is no set bit past the end. -/
theorem bit_eq_false {d : Bytes} {i : Nat} (h : 8 * d.length ≤ i) : bit d i = false := by
  have : d.length ≤ i / 8 := by omega
  simp [bit, List.getD_eq_getElem?_getD, List.getElem?_eq_none this, byteBit]

/-- Writing one bit is a point update of the bit view. -/
theorem bit_setBit {d : Bytes} {i : Nat} (hi : i < 8 * d.length) (j : Nat) (v : Bool) :
    bit (setBit d i v) j = if j = i then v else bit d j := by
  simp only [bit, setBit, List.getD_eq_getElem?_getD, List.getElem?_modify]
  by_cases h : i / 8 = j / 8
  · have hlt : j / 8 < d.length := by omega
    simp only [h, if_true, List.getElem?_eq_getElem hlt, Option.map_eq_map, Option.map_some,
      Option.getD_some]
    rw [byteBit_setByteBit _ (by omega)]
    by_cases hj : j = i
    · simp [hj]
    · have : j % 8 ≠ i % 8 := by omega
      simp [hj, this]
  · have : j ≠ i := fun e => h (by rw [e])
    simp [h, this]

end Bytes

/-! ## Numbers in bytes -/

/-- The number whose big-endian digits in base 256 are the bytes. -/
def beNat (d : Bytes) : Nat :=
  d.foldl (fun n b => 256 * n + b.toNat) 0

/-- The last `len` base-256 digits of `n`, most significant first. -/
def beBytes : (len : Nat) → (n : Nat) → Bytes
  | 0, _ => []
  | len + 1, n => beBytes len (n / 256) ++ [UInt8.ofNat n]

/-- The number whose little-endian digits in base 256 are the bytes. -/
def leNat : Bytes → Nat
  | [] => 0
  | b :: d => b.toNat + 256 * leNat d

/-- The last `len` base-256 digits of `n`, least significant first. -/
def leBytes : (len : Nat) → (n : Nat) → Bytes
  | 0, _ => []
  | len + 1, n => UInt8.ofNat n :: leBytes len (n / 256)

/-- The `len` bytes of `d` from position `pos` on, fewer where `d` ends earlier. -/
def slice (d : Bytes) (pos len : Nat) : Bytes :=
  (d.drop pos).take len

/-- The byte at position `pos`, or 0 past the end. -/
def byteAt (d : Bytes) (pos : Nat) : UInt8 :=
  d.getD pos 0

@[simp] theorem length_beBytes (len n : Nat) : (beBytes len n).length = len := by
  induction len generalizing n with
  | zero => rfl
  | succ len ih => simp [beBytes, ih]

@[simp] theorem length_leBytes (len n : Nat) : (leBytes len n).length = len := by
  induction len generalizing n with
  | zero => rfl
  | succ len ih => simp [leBytes, ih]

/-! ## Hexadecimal text -/

/-- One lower-case hexadecimal digit. -/
def hexDigit (n : Nat) : Char :=
  Char.ofNat (if n < 10 then 48 + n else 87 + n)

/-- Two lower-case hexadecimal digits for each byte. -/
def hexChars (d : Bytes) : List Char :=
  d.flatMap fun b => [hexDigit (b.toNat / 16), hexDigit (b.toNat % 16)]

/-- The hexadecimal text of a byte string. -/
def hex (d : Bytes) : String :=
  String.ofList (hexChars d)

end MeterRadio
