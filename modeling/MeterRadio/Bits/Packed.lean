import MeterRadio.Bits.Field

/-!
# Packed fields

Interval data is sent as consecutive fields of one width with no padding between them, so that
most of them straddle a byte boundary. `readPacked` reads such a run, `writePacked` lays one down.
Both stop at the first field that does not fit.
-/

namespace MeterRadio

/-- Reads `n` consecutive fields of `width` bits from bit `offset` on, keeping the low 16 bits of
each. -/
def readPacked (d : Bytes) (offset width : Nat) : (n : Nat) → Except RangeError (Vector UInt16 n)
  | 0 => .ok #v[]
  | n + 1 => do
    let values ← readPacked d offset width n
    let value ← readField d (offset + n * width) width
    return values.push value.toUInt16

/-- Writes the values into consecutive fields of `width` bits from bit `offset` on; of each value
the low `width` bits are sent. -/
def writePacked (d : Bytes) (offset width : Nat) : (values : List UInt16) → Except RangeError Bytes
  | [] => .ok d
  | v :: values => do
    let d ← writeField d offset width v.toUInt32
    writePacked d (offset + width) width values

end MeterRadio
