import MeterRadio.Bits.Align
import MeterRadio.Bits.Field

/-!
# Bytes changed in place

A field is set bit by bit in a buffer whose bytes it shares with its neighbours, and a buffer is
realigned byte by byte, each byte taking in bits of one that has not been moved yet. What stands in the
buffer half way is neither the old nor the new byte string.

`storeField` and `realignInPlace` do in this way what `writeField` and `realign` say.
-/

namespace MeterRadio

/-! ## Fields -/

/-- Bit `i` of the low `len` bits of a value, the most significant one being bit 0. -/
def lowBit (value : UInt32) (len i : Nat) : Bool :=
  ((value >>> UInt32.ofNat (len - 1 - i)) &&& 1) == 1

/-- The buffer after the first `n` of the `len` bits of a field at `offset` have been set. -/
def storeBits (d : Bytes) (offset len : Nat) (value : UInt32) (n : Nat) : Bytes :=
  (List.range n).foldl (fun d i => Bytes.setBit d (offset + i) (lowBit value len i)) d

/-- Writes a field: whether it was written, and the buffer afterwards. -/
def storeField (d : Bytes) (offset len : Nat) (value : UInt32) : Except RangeError Unit × Bytes :=
  if FieldFits d offset len then (.ok (), storeBits d offset len value len)
  else (.error (rangeError d offset len), d)

/-! ## Alignment -/

/-- Shifts byte `i` to the left, which takes in the highest bits of the byte behind it. -/
def shiftByte (shift : UInt8) (d : Bytes) (i : Nat) : Bytes :=
  d.set i ((byteAt d i <<< shift) ||| (byteAt d (i + 1) >>> (8 - shift)))

/-- The buffer after its first `n` bytes have been shifted, one after the other. -/
def shiftBytes (shift : UInt8) (d : Bytes) (n : Nat) : Bytes :=
  (List.range n).foldl (shiftByte shift) d

/-- Shifts the buffer to the left by `shift % 8` bits; nothing is behind the last byte. -/
def realignInPlace (d : Bytes) (shift : UInt8) : Bytes :=
  let shift := shift % 8
  if shift = 0 ∨ d = [] then d
  else
    let last := d.length - 1
    let shifted := shiftBytes shift d last
    shifted.set last (byteAt shifted last <<< shift)

end MeterRadio
