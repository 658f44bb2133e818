import MeterRadio.Proofs.Checksum.Distance
import MeterRadio.Proofs.Bits

/-!
# Bursts

Damage that is confined to 16 consecutive bits is always noticed, however long the message is and
wherever these bits lie. Before them the register is as it was sent. Sixteen bits that are fed to an
empty register act as a word that is shifted sixteen times (`feedBits_topBits`), and shifts lose
nothing, so the damage leaves something behind, which the undamaged bits after it cannot take away
(`feedBits_ne_zero_of_burst`).
-/

namespace MeterRadio.Checksum

variable {poly : UInt16} {bits errors : List Bool} {start : Nat} {c : Code} {d e : Bytes}

/-! ## Sixteen bits -/

theorem topBits_eq_map (n : Nat) (w : UInt16) :
    topBits n w = (List.range n).map fun i => w.toBitVec.getMsbD i := by
  induction n generalizing w with
  | zero => rfl
  | succ n ih =>
    have hshift : (w <<< 1).toBitVec = w.toBitVec <<< 1 := by simp [UInt16.toBitVec_shiftLeft]
    have htop : topBit w = w.toBitVec.getMsbD 0 := rfl
    rw [topBits, ih, hshift, htop, List.range_succ_eq_map]
    simp

theorem exists_topBits_eq (h : bits.length = 16) : ∃ w, topBits 16 w = bits := by
  refine ⟨⟨(BitVec.ofBoolListBE bits).cast h⟩, ?_⟩
  rw [topBits_eq_map]
  refine List.ext_getElem (by simp [h]) ?_
  intro i _ hi
  simp [BitVec.getMsbD_ofBoolListBE, hi]

/-- Sixteen shifts take all bits out of a word. -/
theorem shiftBits_zero_sixteen (w : UInt16) : shiftBits 0 16 w = 0 := by
  have hbytes := congrArg (shiftBits 0 16) (eq_highByte_xor_lowByte w)
  rw [hbytes, shiftBits_xor, shiftBits_add 0 8 8, shiftBits_add 0 8 8, (topBits_highByte _).2,
    (topBits_lowByte _).2, (topBits_highByte _).2, shiftBits_zero]
  rfl

theorem feedBits_topBits (poly w : UInt16) :
    feedBits poly 0 (topBits 16 w) = shiftBits poly 16 w := by
  have h := shiftBits_xor_eq_feedBits poly 16 0 w
  rw [shiftBits_zero_sixteen] at h
  simpa using h.symm

/-! ## Damage in an empty register -/

theorem feedBits_replicate_false (poly reg : UInt16) (n : Nat) :
    feedBits poly reg (List.replicate n false) = shiftBits poly n reg := by
  induction n generalizing reg with
  | zero => rfl
  | succ n ih =>
    have hbit : feedBit poly reg false = shiftBit poly reg := by simp [feedBit, inTop]
    rw [List.replicate_succ, shiftBits, ← ih, ← hbit]
    rfl

/-- Up to sixteen bits leave something behind unless all of them are zero. -/
theorem feedBits_ne_zero_of_length_le (hconst : HasConstantTerm poly) (hlen : bits.length ≤ 16)
    (hset : true ∈ bits) : feedBits poly 0 bits ≠ 0 := by
  intro hzero
  -- zero bits behind them make it sixteen, and leave an empty register empty
  obtain ⟨w, hw⟩ : ∃ w, topBits 16 w = bits ++ List.replicate (16 - bits.length) false :=
    exists_topBits_eq (by simp; omega)
  have hshift : shiftBits poly 16 w = 0 := by
    rw [← feedBits_topBits, hw, feedBits_append, hzero, feedBits_replicate_false, shiftBits_zero]
  obtain rfl := shiftBits_eq_zero hconst hshift
  have hmem : true ∈ topBits 16 0 := by
    rw [hw]
    exact List.mem_append_left _ hset
  exact absurd hmem (by decide)

/-- A list whose set entries lie in a window is the window between zeros. -/
theorem exists_window (h : ∀ i, errors[i]? = some true → start ≤ i ∧ i < start + 16) :
    ∃ before window behind, window.length ≤ 16 ∧
      errors = List.replicate before false ++ window ++ List.replicate behind false := by
  have hbefore : ∀ b ∈ errors.take start, b = false := by
    intro b hb
    obtain ⟨i, hi, rfl⟩ := List.getElem_of_mem hb
    rw [List.length_take] at hi
    rw [List.getElem_take, ← Bool.not_eq_true]
    intro hset
    have := h i (by rw [List.getElem?_eq_getElem (by omega), hset])
    omega
  have hbehind : ∀ b ∈ errors.drop (start + 16), b = false := by
    intro b hb
    obtain ⟨i, hi, rfl⟩ := List.getElem_of_mem hb
    rw [List.length_drop] at hi
    rw [List.getElem_drop, ← Bool.not_eq_true]
    intro hset
    have := h (start + 16 + i) (by rw [List.getElem?_eq_getElem (by omega), hset])
    omega
  refine ⟨(errors.take start).length, (errors.drop start).take 16,
    (errors.drop (start + 16)).length, List.length_take_le _ _, ?_⟩
  rw [← List.eq_replicate_of_mem hbefore, ← List.eq_replicate_of_mem hbehind, List.append_assoc,
    ← List.drop_drop, List.take_append_drop, List.take_append_drop]

/-- Damage confined to sixteen bits shows in the register. -/
theorem feedBits_ne_zero_of_burst (hconst : HasConstantTerm poly)
    (hburst : ∀ i, errors[i]? = some true → start ≤ i ∧ i < start + 16) (hset : true ∈ errors) :
    feedBits poly 0 errors ≠ 0 := by
  obtain ⟨before, window, behind, hlen, rfl⟩ := exists_window hburst
  have hwindow : true ∈ window := by
    rcases List.mem_append.mp hset with hmem | hmem
    · rcases List.mem_append.mp hmem with hmem | hmem
      · exact absurd (List.eq_of_mem_replicate hmem) (by decide)
      · exact hmem
    · exact absurd (List.eq_of_mem_replicate hmem) (by decide)
  rw [feedBits_append, feedBits_append, feedBits_replicate_false, feedBits_replicate_false,
    shiftBits_zero]
  intro hzero
  exact feedBits_ne_zero_of_length_le hconst hlen hwindow (shiftBits_eq_zero hconst hzero)

/-! ## Damaged messages -/

theorem Code.register_ne_of_burst (hc : c.Sound) (hlen : e.length = d.length) (hne : e ≠ d)
    (hburst : ∀ i, Bytes.bit d i ≠ Bytes.bit e i → start ≤ i ∧ i < start + 16) :
    c.register d ≠ c.register e := by
  intro hsame
  rw [register_eq_bitwise hc, register_eq_bitwise hc, bitwise_eq_feedBits, bitwise_eq_feedBits,
    ← UInt16.xor_eq_zero_iff, feedBits_xor _ _ _ (by simp [hlen]), UInt16.xor_self,
    Bytes.zipWith_bits _ hlen.symm] at hsame
  refine feedBits_ne_zero_of_burst hc.constantTerm (fun i hi => hburst i ?_) ?_ hsame
  · rw [List.getElem?_map, Option.map_eq_some_iff] at hi
    obtain ⟨j, hj, hset⟩ := hi
    obtain ⟨_, hij⟩ := List.getElem?_eq_some_iff.mp hj
    rw [List.getElem_range] at hij
    rw [hij]
    simpa using hset
  · by_contra hunset
    refine hne (Bytes.ext_bit hlen fun i hi => ?_)
    by_contra hbit
    refine hunset (List.mem_map.mpr ⟨i, ?_, ?_⟩)
    · rw [List.mem_range, ← hlen]
      exact hi
    · simpa using Ne.symm hbit

/-- **A burst of up to 16 bits never goes unnoticed.** Two different messages of one length, whatever
it is, that differ within a window of 16 bits only, wherever it lies, are not both valid under one
code. -/
theorem not_valid_of_burst (hlen : e.length = d.length) (hne : e ≠ d)
    (hburst : ∀ i, Bytes.bit d i ≠ Bytes.bit e i → start ≤ i ∧ i < start + 16) :
    (bch.valid d = true → bch.valid e = false) ∧
      (ccitt.valid d = true → ccitt.valid e = false) := by
  have hboth (c : Code) (hc : c.Sound) (hvalid : c.valid d = true) : c.valid e = false := by
    rw [Code.valid, beq_iff_eq] at hvalid
    rw [Code.valid, beq_eq_false_iff_ne, ← hvalid]
    exact (Code.register_ne_of_burst hc hlen hne hburst).symm
  exact ⟨hboth bch sound_bch, hboth ccitt sound_ccitt⟩

/-- A burst of sixteen bits that ends in the checksum. -/
theorem not_valid_of_burst_scm :
    let d : Bytes := [0x02, 0x4E, 0x00, 0x30, 0x39, 0xF5, 0x19, 0x09, 0x11, 0xC7]
    let e : Bytes := [0x02, 0x4E, 0x00, 0x30, 0x39, 0xF5, 0x19, 0x06, 0xA1, 0x37]
    e.length = d.length ∧ e ≠ d ∧
      (∀ i, Bytes.bit d i ≠ Bytes.bit e i → 60 ≤ i ∧ i < 60 + 16) ∧
      bch.valid d = true ∧ bch.valid e = false := by
  intro d e
  have hburst : ∀ i, Bytes.bit d i ≠ Bytes.bit e i → 60 ≤ i ∧ i < 60 + 16 := by
    intro i hi
    by_cases hin : i < 80
    · have hall : ∀ i < 80, Bytes.bit d i ≠ Bytes.bit e i → 60 ≤ i ∧ i < 60 + 16 := by decide
      exact hall i hin hi
    · rw [Bytes.bit_eq_false (by simp [d]; omega), Bytes.bit_eq_false (by simp [e]; omega)] at hi
      exact absurd rfl hi
  have hlen : e.length = d.length := rfl
  have hne : e ≠ d := by decide
  have hvalid : bch.valid d = true := by decide +kernel
  exact ⟨hlen, hne, hburst, hvalid, (not_valid_of_burst hlen hne hburst).1 hvalid⟩

end MeterRadio.Checksum
