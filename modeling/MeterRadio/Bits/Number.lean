import MeterRadio.Bits.Basic

/-!
# Numbers in bits

A description of a message says in which bits each of its fields stands. Its value is the number that
these bits spell, most significant first, whatever bytes they fall in.

The other way around, bits that are sent one after another fill bytes (`ofBits`), whether or not a
message among them starts at the beginning of a byte.
-/

namespace MeterRadio

/-- The number that bits spell, most significant first. -/
def bitsNat (bits : List Bool) : Nat :=
  bits.foldl (fun n b => 2 * n + b.toNat) 0

/-- The bytes that bits fill, eight at a time; bits that do not fill a byte are left out. -/
def ofBits (bits : List Bool) : Bytes :=
  (List.range (bits.length / 8)).map fun i => UInt8.ofNat (bitsNat ((bits.drop (8 * i)).take 8))

@[simp] theorem length_ofBits (bits : List Bool) : (ofBits bits).length = bits.length / 8 := by
  simp [ofBits]

/-- The `len` bits of a byte string from bit `first` on. -/
def bitsAt (d : Bytes) (first len : Nat) : List Bool :=
  (List.range len).map fun i => Bytes.bit d (first + i)

/-- The number in the `len` bits from bit `first` on. -/
def numberAt (d : Bytes) (first len : Nat) : Nat :=
  bitsNat (bitsAt d first len)

/-- The number in the `len` bits from bit `first` on, taken in bit by bit in a 32-bit word. -/
def bitwiseValue (d : Bytes) (first len : Nat) : UInt32 :=
  (bitsAt d first len).foldl (fun w b => (w <<< 1) ||| b.toUInt32) 0

@[simp] theorem length_bitsAt (d : Bytes) (first len : Nat) : (bitsAt d first len).length = len := by
  simp [bitsAt]

end MeterRadio
