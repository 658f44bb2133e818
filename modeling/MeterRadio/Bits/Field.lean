import MeterRadio.Bits.Basic

/-!
# Bit fields

A field is a range of 1 to 32 consecutive bits of a byte string, read and written as a number,
most significant bit first. A range that is empty, too wide or runs past the end is refused with
the numbers that describe it, and nothing is written.

`bit_writeField` says what a write does to the bit view: bit `i` of the field takes bit
`len - 1 - i` of the value and no other bit changes.
-/

namespace MeterRadio

/-- A bit range that lies outside a byte string or has an impossible width. -/
structure RangeError where
  /-- First bit of the range. -/
  offset : Nat
  /-- Number of bits asked for. -/
  len : Nat
  /-- Number of bits there are. -/
  available : Nat
  deriving DecidableEq, Repr

def RangeError.message (e : RangeError) : String :=
  s!"Bit range {e.offset}+{e.len} out of bounds for {e.available} bits"

/-- Widest field that can be read or written. -/
def maxFieldBits : Nat := 32

/-- A range can be accessed if it has 1 to 32 bits and ends inside the byte string. -/
def FieldFits (d : Bytes) (offset len : Nat) : Prop :=
  0 < len ∧ len ≤ maxFieldBits ∧ offset + len ≤ 8 * d.length

instance (d : Bytes) (offset len : Nat) : Decidable (FieldFits d offset len) :=
  inferInstanceAs (Decidable (_ ∧ _ ∧ _))

/-- The error for a range of `d` that cannot be accessed. -/
def rangeError (d : Bytes) (offset len : Nat) : RangeError :=
  { offset, len, available := 8 * d.length }

/-- Bytes that hold a field, from the one with its first bit to the one with its last. -/
def fieldBytes (offset len : Nat) : Nat :=
  (offset + len - 1) / 8 + 1 - offset / 8

/-- The bytes that hold a field, gathered in a 64-bit word. -/
def fieldWord (d : Bytes) (offset len : Nat) : UInt64 :=
  (slice d (offset / 8) (fieldBytes offset len)).foldl (fun w b => (w <<< 8) ||| b.toUInt64) 0

/-- The value of a field that fits. It is cut out of the word that holds its bytes, at most five of them:
the bits after the field are shifted out and those before it masked off. -/
def fieldValue (d : Bytes) (offset len : Nat) : UInt32 :=
  let stop := offset + len
  let trailing := 8 * ((stop - 1) / 8 + 1) - stop
  ((fieldWord d offset len >>> UInt64.ofNat trailing) &&& ((1 <<< UInt64.ofNat len) - 1)).toUInt32

/-- Reads the field of `len` bits at `offset`. -/
def readField (d : Bytes) (offset len : Nat) : Except RangeError UInt32 :=
  if FieldFits d offset len then .ok (fieldValue d offset len)
  else .error (rangeError d offset len)

/-- Sets the bits from `offset` on to the low `len` bits of `value`, most significant first. -/
def setBits (d : Bytes) (offset : Nat) (value : Nat) : (len : Nat) → Bytes
  | 0 => d
  | len + 1 => setBits (Bytes.setBit d offset (value.testBit len)) (offset + 1) value len

/-- Writes the low `len` bits of `value` at `offset` and leaves all other bits alone. -/
def writeField (d : Bytes) (offset len : Nat) (value : UInt32) : Except RangeError Bytes :=
  if FieldFits d offset len then .ok (setBits d offset value.toNat len)
  else .error (rangeError d offset len)

@[simp] theorem length_setBits (d : Bytes) (offset value len : Nat) :
    (setBits d offset value len).length = d.length := by
  induction len generalizing d offset with
  | zero => rfl
  | succ len ih => simp [setBits, ih]

/-- A run of bits is replaced by the digits of the value and nothing else changes. -/
theorem bit_setBits {d : Bytes} {offset len : Nat} (h : offset + len ≤ 8 * d.length)
    (value i : Nat) :
    Bytes.bit (setBits d offset value len) i =
      if offset ≤ i ∧ i < offset + len then value.testBit (offset + len - 1 - i)
      else Bytes.bit d i := by
  induction len generalizing d offset with
  | zero =>
    have : ¬(offset ≤ i ∧ i < offset + 0) := by omega
    rw [if_neg this, setBits]
  | succ len ih =>
    rw [setBits, ih (by simpa using by omega), Bytes.bit_setBit (by omega)]
    by_cases hi : i = offset
    · subst hi
      simp
    · by_cases h' : offset + 1 ≤ i ∧ i < offset + 1 + len
      · have : offset ≤ i ∧ i < offset + (len + 1) := by omega
        rw [if_pos h', if_pos this]
        congr 1
        omega
      · have : ¬(offset ≤ i ∧ i < offset + (len + 1)) := by omega
        rw [if_neg h', if_neg this, if_neg hi]

/-- Writing a field keeps the length of the byte string. -/
theorem length_writeField {d d' : Bytes} {offset len : Nat} {value : UInt32}
    (h : writeField d offset len value = .ok d') : d'.length = d.length := by
  unfold writeField at h
  split at h
  · cases h
    simp
  · cases h

/-- A successful write puts the low bits of the value into the field and changes no other bit. -/
theorem bit_writeField {d d' : Bytes} {offset len : Nat} {value : UInt32}
    (h : writeField d offset len value = .ok d') (i : Nat) :
    Bytes.bit d' i =
      if offset ≤ i ∧ i < offset + len then value.toNat.testBit (offset + len - 1 - i)
      else Bytes.bit d i := by
  unfold writeField at h
  split at h
  · rename_i hfit
    cases h
    exact bit_setBits hfit.2.2 _ _
  · cases h

end MeterRadio
