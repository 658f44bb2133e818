import MeterRadio.Line.History
import MeterRadio.Proofs.Bits

/-!
# Histories of a line

Every sample ages the bits in phase with the sample before the last by one and adds a new one
(`bitOfAge_append_zero`, `bitOfAge_append_succ`). A sender that feeds whole symbols sees its data bits
come out as the latest ones, whatever was on the line before (`lastBits_manchester`). Before its first
sample a line has been low forever, so it makes no difference how many of these samples are counted as
samples of the line (`bitOfAge_silence`).
-/

namespace MeterRadio.Line

variable {samples : List Bool}

theorem bitAt_congr {a b : List Bool} {i : Nat}
    (h : ∀ j ≤ i, a.getD j false = b.getD j false) : bitAt a i = bitAt b i := by
  cases i with
  | zero => rw [bitAt, bitAt, h 0 (Nat.le_refl 0)]
  | succ i => rw [bitAt, bitAt, h i (Nat.le_succ i), h (i + 1) (Nat.le_refl _)]

theorem bitOfAge_nil : bitOfAge [] = fun _ => false := by
  funext age
  rw [bitOfAge, List.length_nil, decide_eq_false (Nat.not_lt_zero _), Bool.false_and]

/-- The newest bit is that of the latest two samples. -/
theorem bitOfAge_append_zero (past : List Bool) (sample : Bool) :
    bitOfAge (past ++ [sample]) 0 = dataBit (past.getLastD false) sample := by
  have hlen : (past ++ [sample]).length = past.length + 1 := List.length_append
  rw [bitOfAge, hlen, decide_eq_true (by omega), Bool.true_and, Nat.mul_zero, Nat.sub_zero,
    Nat.add_sub_cancel]
  cases past using List.reverseRecOn with
  | nil => rfl
  | append_singleton past earlier =>
    have hlast : (past ++ [earlier]).length = past.length + 1 := List.length_append
    rw [hlast, bitAt, List.getLastD_concat]
    simp [List.getD_eq_getElem?_getD]

/-- All other bits are one older than before the last two samples. -/
theorem bitOfAge_append_succ (past : List Bool) (sample : Bool) (age : Nat) :
    bitOfAge (past ++ [sample]) (age + 1) = bitOfAge past.dropLast age := by
  have hlen : (past ++ [sample]).length = past.length + 1 := List.length_append
  have hidx : past.length + 1 - 1 - 2 * (age + 1) = past.length - 1 - 1 - 2 * age := by omega
  rw [bitOfAge, bitOfAge, hlen, List.length_dropLast, hidx]
  by_cases hage : 2 * age < past.length - 1
  · have hage' : 2 * (age + 1) < past.length + 1 := by omega
    rw [decide_eq_true hage, decide_eq_true hage', Bool.true_and, Bool.true_and]
    refine bitAt_congr fun j hj => ?_
    rw [List.getD_eq_getElem?_getD, List.getD_eq_getElem?_getD,
      List.getElem?_append_left (by omega), List.getElem?_dropLast, if_pos (by omega)]
  · have hage' : ¬2 * (age + 1) < past.length + 1 := by omega
    rw [decide_eq_false hage, decide_eq_false hage', Bool.false_and, Bool.false_and]

/-! ## Silence -/

theorem bitAt_cons_false (samples : List Bool) (i : Nat) :
    bitAt (false :: samples) (i + 1) = bitAt samples i := by
  cases i <;> rfl

/-- A line that was low for one sample more has said the same. -/
theorem bitOfAge_cons_false (samples : List Bool) : bitOfAge (false :: samples) = bitOfAge samples := by
  funext age
  rw [bitOfAge, bitOfAge, List.length_cons, Nat.add_sub_cancel]
  rcases Nat.lt_trichotomy (2 * age) samples.length with hlt | heq | hgt
  · have hidx : samples.length - 2 * age = samples.length - 1 - 2 * age + 1 := by omega
    rw [hidx, bitAt_cons_false, decide_eq_true hlt, decide_eq_true (Nat.lt_succ_of_lt hlt)]
  · -- the bit that ends with the new sample
    have hfirst : bitAt (false :: samples) 0 = false := rfl
    rw [heq, Nat.sub_self, hfirst, Bool.and_false, decide_eq_false (Nat.lt_irrefl _), Bool.false_and]
  · rw [decide_eq_false (by omega), decide_eq_false (by omega), Bool.false_and, Bool.false_and]

theorem bitOfAge_silence (n : Nat) (samples : List Bool) :
    bitOfAge (List.replicate n false ++ samples) = bitOfAge samples := by
  induction n with
  | zero => rfl
  | succ n ih => rw [List.replicate_succ, List.cons_append, bitOfAge_cons_false, ih]

/-! ## The latest bits -/

theorem lastBits_congr {now other : List Bool} (h : bitOfAge now = bitOfAge other) :
    lastBits now = lastBits other := by
  funext n
  rw [lastBits, lastBits, h]

theorem getElem?_lastBits {n i : Nat} (hi : i < n) :
    (lastBits samples n)[i]? = some (bitOfAge samples (n - 1 - i)) := by
  rw [lastBits, List.getElem?_map, List.getElem?_range hi, Option.map_some]

theorem lastBits_zero (samples : List Bool) : lastBits samples 0 = [] := rfl

/-- Two samples add the bit that they stand for. -/
theorem lastBits_append_pair (past : List Bool) (a b : Bool) (n : Nat) :
    lastBits (past ++ [a, b]) (n + 1) = lastBits past n ++ [dataBit a b] := by
  have hpair : past ++ [a, b] = (past ++ [a]) ++ [b] := by rw [List.append_assoc]; rfl
  have hnew : bitOfAge (past ++ [a, b]) 0 = dataBit a b := by
    rw [hpair, bitOfAge_append_zero, List.getLastD_concat]
  have hold (age : Nat) : bitOfAge (past ++ [a, b]) (age + 1) = bitOfAge past age := by
    rw [hpair, bitOfAge_append_succ, List.dropLast_concat]
  rw [lastBits, lastBits, List.range_succ, List.map_append, List.map_singleton,
    Nat.add_sub_cancel, Nat.sub_self, hnew]
  congr 1
  refine List.map_congr_left fun i hi => ?_
  have hi' : i < n := List.mem_range.mp hi
  have hage : n - i = n - 1 - i + 1 := by omega
  rw [hage, hold]

theorem lastBits_append_symbol (past : List Bool) (b : Bool) (n : Nat) :
    lastBits (past ++ symbol b) (n + 1) = lastBits past n ++ [b] := by
  rw [symbol, lastBits_append_pair, dataBit_symbol]

/-- The latest bits are those that were sent, whatever was on the line before. -/
theorem lastBits_symbols (past bits : List Bool) :
    lastBits (past ++ bits.flatMap symbol) bits.length = bits := by
  induction bits using List.reverseRecOn with
  | nil => rfl
  | append_singleton bits b ih =>
    rw [List.flatMap_append, List.flatMap_singleton, ← List.append_assoc, List.length_append,
      List.length_singleton, lastBits_append_symbol, ih]

theorem lastBits_manchester (past : List Bool) (d : Bytes) :
    lastBits (past ++ manchester d) (8 * d.length) = Bytes.bits d := by
  rw [manchester, ← Bytes.length_bits]
  exact lastBits_symbols past (Bytes.bits d)

theorem starts_of_messageEnding? {kind : Kind} (h : messageEnding? samples = some kind) :
    Starts kind samples ∧ kind ≠ .idm18 := by
  rw [messageEnding?] at h
  split_ifs at h with hidm hplus hscm
  · obtain rfl := Option.some.inj h
    exact ⟨hidm, Kind.noConfusion⟩
  · obtain rfl := Option.some.inj h
    exact ⟨hplus, Kind.noConfusion⟩
  · obtain rfl := Option.some.inj h
    exact ⟨hscm, Kind.noConfusion⟩

theorem messageEnding?_congr {now other : List Bool} (h : bitOfAge now = bitOfAge other) :
    messageEnding? now = messageEnding? other := by
  have hstarts (kind : Kind) : Starts kind now ↔ Starts kind other := by
    rw [Starts, Starts, lastBits_congr h]
  rw [messageEnding?, messageEnding?]
  exact if_congr (hstarts .idm) rfl
    (if_congr (hstarts .scmPlus) rfl (if_congr (hstarts .scm) rfl rfl))

theorem messageEnding?_nil : messageEnding? [] = none := by
  decide +kernel

/-- A message is found unless it is taken for another one. -/
theorem messageEnding?_of_starts {kind : Kind} (hkind : kind ≠ .idm18)
    (hstarts : Starts kind samples) (hfree : ¬Preempted kind samples) :
    messageEnding? samples = some kind := by
  rw [messageEnding?]
  cases kind with
  | idm => exact if_pos hstarts
  | idm18 => exact absurd rfl hkind
  | scmPlus =>
    have hidm : ¬Starts .idm samples := hfree
    rw [if_neg hidm, if_pos hstarts]
  | scm =>
    obtain ⟨hidm, hplus⟩ := not_or.mp hfree
    rw [if_neg hidm, if_neg hplus, if_pos hstarts]

end MeterRadio.Line
