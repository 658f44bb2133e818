import MeterRadio.Line.LeadIn
import MeterRadio.Proofs.Line.History
import MeterRadio.Proofs.Line.Preamble
import MeterRadio.Proofs.Message.Encode

/-!
# What is found behind a lead-in

A receiver that hears a lead-in and then a message sees two streams of bits. In the alignment of the
sender these are the data bits (`lastBits_own`), in the other one the gaps between them
(`lastBits_other`). The first is silent until the message starts; the second is a run of ones while
data zeros are sent and then runs over the gaps of the message.

A window that is as long as the message, or longer, and that is filled before the message has been sent
to its end begins with one of these. The first 16 bits tell that no preamble is there
(`not_starts_of_prefix`).
-/

namespace MeterRadio.Line

variable {w v now : List Bool} {kind other : Kind} {stray : Bool} {m n zeros : Nat}

/-! ## Parts of lists -/

theorem drop_replicate_append {b : Bool} (l : List Bool) (h : m ≤ n) :
    (List.replicate n b ++ l).drop m = List.replicate (n - m) b ++ l := by
  rw [List.drop_append_of_le_length (by rw [List.length_replicate]; exact h), List.drop_replicate]

theorem take_replicate_append (n m : Nat) (b : Bool) (l : List Bool) :
    (List.replicate n b ++ l).take m = (List.replicate (min n m) b ++ l).take m := by
  rcases Nat.le_total n m with hle | hle
  · rw [Nat.min_eq_left hle]
  · rw [Nat.min_eq_right hle, List.take_append_of_le_length (by simp [hle]),
      List.take_append_of_le_length (by simp), List.take_replicate, List.take_replicate,
      Nat.min_self, Nat.min_eq_left hle]

theorem take_append_congr {n : Nat} {p q : List Bool} (l : List Bool) (h : p.take n = q.take n) :
    (l ++ p).take n = (l ++ q).take n := by
  have hpart {p q : List Bool} (h : p.take n = q.take n) (k : Nat) :
      p.take (n - k) = q.take (n - k) := by
    have htake := congrArg (List.take (n - k)) h
    rwa [List.take_take, List.take_take, Nat.min_eq_left (Nat.sub_le n k)] at htake
  rw [List.take_append, List.take_append, hpart h]

theorem take_append_prefix {l p q : List Bool} (h : p <+: q) (hlen : n ≤ l.length + p.length) :
    (l ++ q).take n = (l ++ p).take n := by
  obtain ⟨r, rfl⟩ := h
  rw [← List.append_assoc, List.take_append_of_le_length (by rw [List.length_append]; exact hlen)]

/-! ## Streams -/

@[simp] theorem endOf_zero (bits : List Bool) : endOf bits 0 = [] := by
  simp [endOf]

theorem endOf_nil (n : Nat) : endOf [] n = List.replicate n false := by
  simp [endOf]

theorem endOf_concat (bits : List Bool) (b : Bool) (n : Nat) :
    endOf (bits ++ [b]) (n + 1) = endOf bits n ++ [b] := by
  rw [endOf, endOf, List.length_append, List.length_singleton, List.replicate_succ, List.cons_append,
    List.drop_succ_cons, ← List.append_assoc, List.drop_append_of_le_length (by simp)]

/-- The first bits of a window, seen in all that the stream is going to say. -/
theorem take_endOf (h : w <+: v) (hm : m ≤ n) :
    (endOf w n).take m = ((List.replicate n false ++ v).drop w.length).take m := by
  obtain ⟨r, rfl⟩ := h
  rw [← List.append_assoc, List.drop_append_of_le_length (by simp), endOf,
    List.take_append_of_le_length (by simp; omega)]

theorem gaps_concat (bits : List Bool) (a b : Bool) :
    gaps (bits ++ [a, b]) = gaps (bits ++ [a]) ++ [!a && !b] := by
  induction bits with
  | nil => rfl
  | cons c bits ih =>
    cases bits with
    | nil => rfl
    | cons d bits => simpa [gaps] using ih

theorem length_gaps (bits : List Bool) : (gaps bits).length = bits.length - 1 := by
  induction bits with
  | nil => rfl
  | cons a bits ih =>
    cases bits with
    | nil => rfl
    | cons b bits => simpa [gaps] using ih

theorem gaps_mono (h : w <+: v) : gaps w <+: gaps v := by
  obtain ⟨r, rfl⟩ := h
  induction w with
  | nil => exact List.nil_prefix
  | cons a w ih =>
    cases w with
    | nil => exact List.nil_prefix
    | cons b w => simpa [gaps] using ih

theorem gaps_zeros (n : Nat) (bits : List Bool) :
    gaps (List.replicate (n + 1) false ++ bits) = List.replicate n true ++ gaps (false :: bits) := by
  induction n with
  | zero => rfl
  | succ n ih =>
    rw [List.replicate_succ, List.replicate_succ, List.cons_append, List.cons_append, gaps,
      ← List.cons_append, ← List.replicate_succ, ih]
    rfl

/-! ## Both alignments -/

theorem bitOfAge_replicate_false (k age : Nat) : bitOfAge (List.replicate k false) age = false := by
  rw [← List.append_nil (List.replicate k false), bitOfAge_silence, bitOfAge_nil]

theorem lastBits_eq_zeros (h : ∀ age, bitOfAge now age = false) (n : Nat) :
    lastBits now n = endOf [] n := by
  rw [endOf_nil, lastBits, List.eq_replicate_iff]
  simp [h]

/-- In their own alignment data bits come out as they are. -/
theorem lastBits_own (k : Nat) (bits : List Bool) (n : Nat) :
    lastBits (List.replicate k false ++ bits.flatMap symbol) n = endOf bits n := by
  induction bits using List.reverseRecOn generalizing n with
  | nil =>
    rw [List.flatMap_nil, List.append_nil]
    exact lastBits_eq_zeros (bitOfAge_replicate_false k) n
  | append_singleton bits b ih =>
    cases n with
    | zero => rw [lastBits_zero, endOf_zero]
    | succ n =>
      rw [List.flatMap_append, List.flatMap_singleton, ← List.append_assoc, symbol,
        lastBits_append_pair, ih, endOf_concat]
      simp [dataBit]

/-- In the other alignment their gaps come out. -/
theorem lastBits_other (k : Nat) (bits : List Bool) (b : Bool) (n : Nat) :
    lastBits (List.replicate k false ++ bits.flatMap symbol ++ [b]) n =
      endOf (gaps (bits ++ [b])) n := by
  induction bits using List.reverseRecOn generalizing b n with
  | nil =>
    rw [List.flatMap_nil, List.append_nil]
    refine lastBits_eq_zeros (fun age => ?_) n
    cases age with
    | zero =>
      have hlast : (List.replicate k false).getLastD false = false := by
        cases k with
        | zero => rfl
        | succ k => rw [List.replicate_succ', List.getLastD_concat]
      rw [bitOfAge_append_zero, hlast, dataBit, Bool.false_and]
    | succ age => rw [bitOfAge_append_succ, List.dropLast_replicate, bitOfAge_replicate_false]
  | append_singleton bits a ih =>
    cases n with
    | zero => rw [lastBits_zero, endOf_zero]
    | succ n =>
      have hsamples : List.replicate k false ++ (bits ++ [a]).flatMap symbol ++ [b] =
          (List.replicate k false ++ bits.flatMap symbol ++ [a]) ++ [!a, b] := by
        simp [symbol]
      have hbits : bits ++ [a] ++ [b] = bits ++ [a, b] := by simp
      rw [hsamples, lastBits_append_pair, ih, hbits, gaps_concat, endOf_concat]
      rfl

/-- At every sample a receiver sees the data bits so far or the gaps between them. -/
theorem exists_stream {k : Nat} {bits : List Bool}
    (h : now <+: List.replicate k false ++ bits.flatMap symbol) :
    ∃ w, lastBits now = endOf w ∧
      ((w <+: bits ∧ (w = bits → now = List.replicate k false ++ bits.flatMap symbol)) ∨
        w <+: gaps bits) := by
  induction bits using List.reverseRecOn with
  | nil =>
    rw [List.flatMap_nil, List.append_nil] at h
    have hsilent : now = List.replicate now.length false := (List.prefix_replicate_iff.mp h).2
    refine ⟨[], ?_, Or.inr List.prefix_rfl⟩
    rw [hsilent]
    exact funext (lastBits_eq_zeros (bitOfAge_replicate_false _))
  | append_singleton bits b ih =>
    have hmore : List.replicate k false ++ (bits ++ [b]).flatMap symbol =
        List.replicate k false ++ bits.flatMap symbol ++ [b] ++ [!b] := by
      simp [symbol]
    rw [hmore, List.prefix_concat_iff, List.prefix_concat_iff] at h
    rcases h with rfl | rfl | h
    · refine ⟨bits ++ [b], ?_, Or.inl ⟨List.prefix_rfl, fun _ => hmore.symm⟩⟩
      funext n
      rw [← hmore, lastBits_own]
    · exact ⟨_, funext fun n => lastBits_other k bits b n, Or.inr List.prefix_rfl⟩
    · obtain ⟨w, hw, ⟨hown, -⟩ | hother⟩ := ih h
      · have hlen := hown.length_le
        refine ⟨w, hw, Or.inl ⟨hown.trans (List.prefix_append _ _), ?_⟩⟩
        rintro rfl
        rw [List.length_append, List.length_singleton] at hlen
        omega
      · exact ⟨w, hw, Or.inr (hother.trans (gaps_mono (List.prefix_append _ _)))⟩

/-! ## Preambles behind a lead-in -/

theorem Starts.take_eq (h : Starts kind now) :
    (lastBits now (8 * kind.rawSize)).take 16 = kind.preambleBits.take 16 := by
  obtain ⟨rest, hrest⟩ := h
  rw [← hrest, List.take_append_of_le_length kind.le_preambleBits_length]

/-- Among the first 16 bits no more than 16 can be silence. -/
theorem take_silence_ne {p : List Bool} (h : ∀ n < 17, 0 < n → (List.replicate n false ++ v).take 16 ≠ p)
    (n : Nat) : (List.replicate (n + 1) false ++ v).take 16 ≠ p := by
  rw [take_replicate_append]
  exact h _ (by omega) (by omega)

/-- Silence and the start of a message make no preamble of a message that is not shorter. -/
theorem take_zeros_ne (hle : kind.rawSize ≤ other.rawSize) (n : Nat) :
    (List.replicate (n + 1) false ++ kind.preambleBits).take 16 ≠ other.preambleBits.take 16 := by
  refine take_silence_ne ?_ n
  revert hle
  cases kind <;> cases other <;> decide +kernel

/-- Nor do silence and the gaps of a message. -/
theorem take_gaps_ne (hle : kind.rawSize ≤ other.rawSize) (n : Nat) :
    (List.replicate (n + 1) false ++ gaps kind.preambleBits).take 16 ≠
      other.preambleBits.take 16 := by
  refine take_silence_ne ?_ n
  revert hle
  cases kind <;> cases other <;> decide +kernel

/-- Nor do the gaps of a lead-in and a message. -/
theorem take_ones_ne (hle : kind.rawSize ≤ other.rawSize) (n a : Nat) :
    (List.replicate n false ++ (List.replicate a true ++ gaps (false :: kind.preambleBits))).take 16 ≠
      other.preambleBits.take 16 := by
  have hfew : ∀ n < 17, ∀ a < 17,
      (List.replicate n false ++ (List.replicate a true ++ gaps (false :: kind.preambleBits))).take 16 ≠
        other.preambleBits.take 16 := by
    revert hle
    cases kind <;> cases other <;> decide +kernel
  have hcap : (List.replicate n false ++
        (List.replicate a true ++ gaps (false :: kind.preambleBits))).take 16 =
      (List.replicate (min n 16) false ++
        (List.replicate (min a 16) true ++ gaps (false :: kind.preambleBits))).take 16 := by
    rw [take_replicate_append]
    exact take_append_congr _ (take_replicate_append a 16 true _)
  rw [hcap]
  exact hfew _ (by omega) _ (by omega)

/-- Before a message has been sent to its end, a window as long as the message starts with silence. -/
theorem exists_take_own {bits : List Bool} (hw : w <+: List.replicate zeros false ++ bits)
    (hlen : w.length < n + zeros) (hm : m ≤ n) :
    ∃ d, (endOf w n).take m = (List.replicate (d + 1) false ++ bits).take m := by
  refine ⟨n + zeros - w.length - 1, ?_⟩
  have hd : n + zeros - w.length - 1 + 1 = n + zeros - w.length := by omega
  rw [take_endOf hw hm, ← List.append_assoc, List.replicate_append_replicate,
    drop_replicate_append _ (Nat.le_of_lt hlen), hd]

theorem exists_take_gaps {bits : List Bool} (hw : w <+: gaps bits) (hlen : w.length < n) (hm : m ≤ n) :
    ∃ d, (endOf w n).take m = (List.replicate (d + 1) false ++ gaps bits).take m := by
  refine ⟨n - w.length - 1, ?_⟩
  have hd : n - w.length - 1 + 1 = n - w.length := by omega
  rw [take_endOf hw hm, drop_replicate_append _ (Nat.le_of_lt hlen), hd]

theorem exists_take_ones {bits : List Bool}
    (hw : w <+: gaps (List.replicate (zeros + 1) false ++ bits))
    (hlen : w.length ≤ n + zeros) (hm : m ≤ n) :
    ∃ d a, (endOf w n).take m =
      (List.replicate d false ++ (List.replicate a true ++ gaps (false :: bits))).take m := by
  rw [gaps_zeros] at hw
  rw [take_endOf hw hm]
  rcases Nat.le_total w.length n with hle | hle
  · exact ⟨n - w.length, zeros, by rw [drop_replicate_append _ hle]⟩
  · obtain ⟨k, hk⟩ := Nat.exists_eq_add_of_le hle
    refine ⟨0, zeros - k, ?_⟩
    have hsilence : (List.replicate n false).length = n := List.length_replicate
    rw [hk, ← List.drop_drop, List.drop_left' hsilence, drop_replicate_append _ (by omega),
      List.replicate_zero, List.nil_append]

/-- **A message is not found before its end.** What goes before it is a lead-in. Whatever the message
holds, before its last sample nothing starts that is as long as the message, in either alignment, and
with its last sample nothing longer. -/
theorem not_starts_of_prefix {raw : Bytes} (hmessage : IsMessage kind raw)
    (hnow : now <+: leadIn stray zeros ++ manchester raw) (hle : kind.rawSize ≤ other.rawSize)
    (hlast : now = leadIn stray zeros ++ manchester raw → kind.rawSize < other.rawSize) :
    ¬Starts other now := by
  intro hstarts
  have hsamples : leadIn stray zeros ++ manchester raw = List.replicate stray.toNat false ++
      (List.replicate zeros false ++ Bytes.bits raw).flatMap symbol := by
    rw [leadIn, manchester, List.flatMap_append, List.append_assoc]
  have hsize : (Bytes.bits raw).length = 8 * kind.rawSize := by
    rw [Bytes.length_bits, hmessage.length_eq]
  have hpreamble := kind.le_preambleBits_length
  have hmin := other.le_rawSize
  have htake := hstarts.take_eq
  rw [hsamples] at hnow hlast
  obtain ⟨w, hw, ⟨hown, hwhole⟩ | hother⟩ := exists_stream hnow
  · have hlen : w.length < 8 * other.rawSize + zeros := by
      have hbits := hown.length_le
      rw [List.length_append, List.length_replicate, hsize] at hbits
      rcases Nat.lt_or_ge w.length (8 * kind.rawSize + zeros) with hlt | hge
      · omega
      · have hend := hlast (hwhole (hown.eq_of_length (by
          rw [List.length_append, List.length_replicate, hsize]; omega)))
        omega
    obtain ⟨d, hd⟩ := exists_take_own hown hlen (by omega : 16 ≤ _)
    rw [hw, hd, take_append_prefix hmessage.starts (by omega)] at htake
    exact take_zeros_ne hle d htake
  · have hgaps := hother.length_le
    rw [length_gaps, List.length_append, List.length_replicate, hsize] at hgaps
    cases zeros with
    | zero =>
      rw [List.replicate_zero, List.nil_append] at hother
      obtain ⟨d, hd⟩ := exists_take_gaps hother (by omega) (by omega : 16 ≤ 8 * other.rawSize)
      have hlen := length_gaps kind.preambleBits
      rw [hw, hd, take_append_prefix (gaps_mono hmessage.starts)
        (by rw [List.length_replicate]; omega)] at htake
      exact take_gaps_ne hle d htake
    | succ zeros =>
      obtain ⟨d, a, hda⟩ := exists_take_ones hother (by omega) (by omega : 16 ≤ 8 * other.rawSize)
      have hlen := length_gaps (false :: kind.preambleBits)
      have hstart := gaps_mono ((List.prefix_cons_inj false).mpr hmessage.starts)
      rw [List.length_cons] at hlen
      rw [hw, hda, ← List.append_assoc, take_append_prefix hstart (by omega), List.append_assoc] at htake
      exact take_ones_ne hle d a htake

end MeterRadio.Line
