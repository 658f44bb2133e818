import MeterRadio.Checksum

/-!
# Message kinds

Three formats are received. A Standard Consumption Message (SCM) has 12 bytes, an SCM+ 16 bytes and
an Interval Data Message (IDM) 92 bytes. An IDM comes in two layouts, which are told apart by a
field inside the message; the second one counts as a kind of its own, `idm18`, once it is decoded.
-/

namespace MeterRadio

/-- The kinds of message. -/
inductive Kind
  /-- Standard Consumption Message. -/
  | scm
  /-- Standard Consumption Message Plus. -/
  | scmPlus
  /-- Interval Data Message. -/
  | idm
  /-- Interval Data Message in the layout of meter type 8. -/
  | idm18
  deriving DecidableEq, Repr

namespace Kind

/-- The tag that stands for a kind in a queued frame. -/
def tag : Kind → UInt8
  | scm => 0
  | scmPlus => 1
  | idm => 2
  | idm18 => 3

/-- The kind a tag stands for. -/
def ofTag? (t : UInt8) : Option Kind :=
  if t = 0 then some scm
  else if t = 1 then some scmPlus
  else if t = 2 then some idm
  else if t = 3 then some idm18
  else none

/-- The name in texts for people. -/
def name : Kind → String
  | scm => "SCM"
  | scmPlus => "SCM+"
  | idm => "IDM"
  | idm18 => "IDM18"

/-- The name as an identifier. -/
def ident : Kind → String
  | scm => "Scm"
  | scmPlus => "ScmPlus"
  | idm => "Idm"
  | idm18 => "Idm18"

/-- Bytes of a message, preamble and checksum included. -/
def rawSize : Kind → Nat
  | scm => 12
  | scmPlus => 16
  | idm | idm18 => 92

/-- The checksum that protects a kind. -/
def code : Kind → Checksum.Code
  | scm => Checksum.bch
  | scmPlus | idm | idm18 => Checksum.ccitt

/-- The first byte that the checksum covers; it covers everything from there to the end. -/
def firstCovered : Kind → Nat
  | scm | scmPlus => 2
  | idm | idm18 => 4

/-- The format of a kind: both layouts of an IDM are one format. -/
def format : Kind → Kind
  | scm => scm
  | scmPlus => scmPlus
  | idm | idm18 => idm

@[simp] theorem rawSize_format (k : Kind) : k.format.rawSize = k.rawSize := by
  cases k <;> rfl

@[simp] theorem code_format (k : Kind) : k.format.code = k.code := by
  cases k <;> rfl

@[simp] theorem firstCovered_format (k : Kind) : k.format.firstCovered = k.firstCovered := by
  cases k <;> rfl

@[simp] theorem ofTag?_tag (k : Kind) : ofTag? k.tag = some k := by
  cases k <;> rfl

/-- A tag stands for a kind exactly if it is at most 3. -/
theorem ofTag?_eq_none_iff (t : UInt8) : ofTag? t = none ↔ 3 < t.toNat := by
  simp only [ofTag?, ← UInt8.toNat_inj, UInt8.reduceToNat]
  grind

end Kind

/-- Bytes of the longest message. -/
def maxRawSize : Nat := 92

theorem Kind.rawSize_le (k : Kind) : k.rawSize ≤ maxRawSize := by
  cases k <;> decide

end MeterRadio
