import MeterRadio.Bits.Basic

/-!
# Cyclic checksums

Meter broadcasts carry one of two 16-bit cyclic checksums: SCM messages a BCH code, SCM+ and IDM
messages the CCITT code, which is sent complemented.

A receiver validates a message by *residual*: it runs the register over the covered bytes and the
checksum after them and compares the final register with one fixed value of the code.

The register is defined twice. `Checksum.bitwise` is the definition: it feeds one bit at a time.
`Checksum.tabular` feeds a byte at a time through a table of 256 precomputed steps, and it is what
runs.
-/

namespace MeterRadio.Checksum

/-- Shifts the register by one bit, subtracting the generator polynomial when the bit shifted out
is set. -/
def shiftBit (poly reg : UInt16) : UInt16 :=
  if reg &&& 0x8000 != 0 then (reg <<< 1) ^^^ poly else reg <<< 1

/-- Shifts the register by `n` bits. -/
def shiftBits (poly : UInt16) : (n : Nat) → (reg : UInt16) → UInt16
  | 0, reg => reg
  | n + 1, reg => shiftBits poly n (shiftBit poly reg)

/-- Feeds one byte, most significant bit first: it is added to the top of the register, which then
makes eight shifts. -/
def feedByte (poly reg : UInt16) (b : UInt8) : UInt16 :=
  shiftBits poly 8 (reg ^^^ (b.toUInt16 <<< 8))

/-- The register after all bytes of `d`, bit by bit. -/
def bitwise (poly start : UInt16) (d : Bytes) : UInt16 :=
  d.foldl (feedByte poly) start

/-- For each byte the register that it leaves behind when it is fed into an empty register. -/
def lookupTable (poly : UInt16) : Vector UInt16 256 :=
  Vector.ofFn fun i => shiftBits poly 8 (UInt16.ofNat i <<< 8)

/-- Feeds one byte through a table: the top byte of the register and the new byte select the step,
the low byte moves up. -/
def lookupByte (table : Vector UInt16 256) (reg : UInt16) (b : UInt8) : UInt16 :=
  (reg <<< 8) ^^^ table.get ⟨((reg >>> 8).toUInt8 ^^^ b).toNat, UInt8.toNat_lt _⟩

/-- The register after all bytes of `d`, byte by byte through a table. -/
def tabular (table : Vector UInt16 256) (start : UInt16) (d : Bytes) : UInt16 :=
  d.foldl (lookupByte table) start

/-- A cyclic code as it is used on the air. -/
structure Code where
  /-- Generator polynomial without its leading term. -/
  poly : UInt16
  /-- Register before the first byte. -/
  start : UInt16
  /-- Register after a valid message and its checksum. -/
  residual : UInt16
  /-- Whether the checksum is sent complemented. -/
  complemented : Bool
  /-- Steps for whole bytes. -/
  table : Vector UInt16 256 := lookupTable poly

/-- The BCH code of SCM messages. -/
def bch : Code where
  poly := 0x6F63
  start := 0x0000
  residual := 0x0000
  complemented := false

/-- The CCITT code of SCM+ and IDM messages. -/
def ccitt : Code where
  poly := 0x1021
  start := 0xFFFF
  residual := 0x1D0F
  complemented := true

namespace Code

/-- The register after `d`. -/
def register (c : Code) (d : Bytes) : UInt16 :=
  tabular c.table c.start d

/-- The checksum that is sent after `d`, most significant byte first. -/
def checksum (c : Code) (d : Bytes) : UInt16 :=
  if c.complemented then ~~~(c.register d) else c.register d

/-- Whether `d`, a message with its checksum at the end, passes. -/
def valid (c : Code) (d : Bytes) : Bool :=
  c.register d == c.residual

/-- The message `d` followed by its checksum, which covers `d` from byte `first` on. -/
def withChecksum (c : Code) (first : Nat) (d : Bytes) : Bytes :=
  d ++ beBytes 2 (c.checksum (d.drop first)).toNat

@[simp] theorem length_withChecksum (c : Code) (first : Nat) (d : Bytes) :
    (c.withChecksum first d).length = d.length + 2 := by
  simp [withChecksum]

end Code

end MeterRadio.Checksum
