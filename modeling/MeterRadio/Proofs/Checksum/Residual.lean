import MeterRadio.Proofs.Checksum.Register

/-!
# Checksums and residuals

A register that is fed its own value comes out as if it had been empty: of what is fed, only the
difference to that value has an effect. So every message that is followed by its checksum leaves the
residual of the code behind (`Code.register_append_checksum`), and no other word that follows it does
(`Code.eq_checksum`). Sender and receiver need not know of each other's way to compute: a receiver that
looks at the residual accepts what a sender appends, and nothing else (`valid_append_iff`).
-/

namespace MeterRadio.Checksum

namespace Code

variable {c : Code} {d : Bytes} {w : UInt16}

/-- What is added to the register before it is sent. -/
def mask (c : Code) : UInt16 :=
  if c.complemented then 0xFFFF else 0

/-- The constants of a code fit together: its table is that of its generator, whose constant term
makes the shifts injective, and its residual is what the mask leaves in an empty register. -/
structure Sound (c : Code) : Prop where
  table_eq : c.table = lookupTable c.poly
  constantTerm : HasConstantTerm c.poly
  residual_eq : c.residual = shiftBits c.poly 16 c.mask

theorem checksum_eq_xor (c : Code) (d : Bytes) : c.checksum d = c.register d ^^^ c.mask := by
  rw [checksum, mask]
  split_ifs
  · exact UInt16.xor_neg_one.symm
  · exact UInt16.xor_zero.symm

theorem register_eq_bitwise (hc : c.Sound) (d : Bytes) :
    c.register d = bitwise c.poly c.start d := by
  rw [register, hc.table_eq, tabular_lookupTable]

theorem register_append_word (hc : c.Sound) (d : Bytes) (w : UInt16) :
    c.register (d ++ beBytes 2 w.toNat) = shiftBits c.poly 16 (c.register d ^^^ w) := by
  rw [register_eq_bitwise hc, register_eq_bitwise hc, bitwise, List.foldl_append]
  exact bitwise_word _ _ _

/-- A message followed by its checksum leaves the residual behind. -/
theorem register_append_checksum (hc : c.Sound) (d : Bytes) :
    c.register (d ++ beBytes 2 (c.checksum d).toNat) = c.residual := by
  rw [register_append_word hc, checksum_eq_xor, ← UInt16.xor_assoc, UInt16.xor_self, UInt16.zero_xor,
    hc.residual_eq]

/-- Only the checksum leaves the residual behind. -/
theorem eq_checksum (hc : c.Sound) (h : c.register (d ++ beBytes 2 w.toNat) = c.residual) :
    w = c.checksum d := by
  rw [register_append_word hc, hc.residual_eq] at h
  have hmask : c.register d ^^^ w = c.mask := shiftBits_inj hc.constantTerm h
  rw [checksum_eq_xor, ← hmask, ← UInt16.xor_assoc, UInt16.xor_self, UInt16.zero_xor]

theorem valid_append_word_iff (hc : c.Sound) (d : Bytes) (w : UInt16) :
    c.valid (d ++ beBytes 2 w.toNat) = true ↔ w = c.checksum d := by
  rw [valid, beq_iff_eq]
  constructor
  · intro h
    exact eq_checksum hc h
  · rintro rfl
    exact register_append_checksum hc d

end Code

theorem sound_bch : bch.Sound where
  table_eq := rfl
  constantTerm := rfl
  residual_eq := by decide +kernel

theorem sound_ccitt : ccitt.Sound where
  table_eq := rfl
  constantTerm := rfl
  residual_eq := by decide +kernel

/-- **Exactly the checksum is accepted.** Behind a message of any length a word makes it valid if it is
the checksum of the code, which is the register for SCM messages and its complement for the others. -/
theorem valid_append_iff (d : Bytes) (w : UInt16) :
    (bch.valid (d ++ beBytes 2 w.toNat) = true ↔ w = bch.register d) ∧
      (ccitt.valid (d ++ beBytes 2 w.toNat) = true ↔ w = ccitt.checksum d) ∧
      ccitt.checksum d = ~~~ccitt.register d :=
  ⟨Code.valid_append_word_iff sound_bch d w, Code.valid_append_word_iff sound_ccitt d w, rfl⟩

end MeterRadio.Checksum
