import MeterRadio.Proofs.Receiver.Polling
import MeterRadio.Proofs.Receiver.Sampler
import MeterRadio.Receiver.Run

/-!
# What a receiver is after any use

However a receiver is used, its detector has taken the samples that were heard and its ring is one
that never had storage or behaves as a queue: `Tracks` holds at the start and is preserved by every
use.
-/

namespace MeterRadio

open Line

variable {C α : Type}

namespace Receiver

variable {r : Receiver C α} {past : List Bool}

/-- The receiver has heard the samples `past`. -/
structure Tracks (r : Receiver C α) (past : List Bool) : Prop where
  detector : r.sampler.detector.Heard past
  ring : r.ring.Ready

theorem tracks_ofCapacity (capacity : Nat) (clock : C) :
    Tracks (ofCapacity capacity clock : Receiver C α) [] :=
  ⟨Detector.heard_start, FrameRing.ready_ofCapacity capacity⟩

/-- A use without a sample. -/
theorem Tracks.silent {r' : Receiver C α} (h : Tracks r past)
    (hdetector : r'.sampler.detector = r.sampler.detector) (hring : r'.ring.Ready) :
    Tracks r' (past ++ []) where
  detector := by
    rw [hdetector, List.append_nil]
    exact h.detector
  ring := hring

variable [Clock C]

/-- A poll empties the ring. -/
theorem ring_process (r : Receiver C α) : (r.call .process).2.ring = r.ring.drain.2 :=
  r.dispatcher.ring_process r.ring

theorem Tracks.feed (h : Tracks r past) (sample : Bool) :
    Tracks (r.feed sample) (past ++ r.heardOf (.call (.sample sample))) where
  detector := by
    rw [heardOf]
    cases hen : r.sampler.enabled with
    | false =>
      rw [if_neg Bool.false_ne_true, List.append_nil, Receiver.feed, Sampler.feed_of_disabled hen]
      exact h.detector
    | true =>
      have hfeed : (r.feed sample).sampler.detector = (r.sampler.detector.feed sample).1 :=
        Sampler.detector_feed hen
      rw [if_pos rfl, hfeed]
      exact h.detector.feed sample
  ring := by
    have hring : (r.feed sample).ring = (r.sampler.feed r.ring sample).2 := rfl
    rcases r.sampler.ring_feed r.ring sample with he | ⟨f, he⟩
    · rw [hring, he]
      exact h.ring
    · rw [hring, he]
      exact h.ring.step (.push f)

theorem Tracks.use (h : Tracks r past) (u : Use C α) :
    Tracks (r.use u) (past ++ r.heardOf u) := by
  cases u with
  | ring op => exact h.silent rfl (h.ring.step op)
  | call c =>
    cases c with
    | sample value => exact h.feed value
    | setEnabled enabled => exact h.silent rfl h.ring
    | setClock clock => exact h.silent rfl h.ring
    | register listener => exact h.silent rfl h.ring
    | clear => exact h.silent rfl h.ring
    | process => exact h.silent rfl (r.ring_process ▸ h.ring.drain)
    | takeOverflow => exact h.silent rfl (h.ring.step .takeOverflow)

theorem Tracks.useAll (h : Tracks r past) (uses : List (Use C α)) :
    Tracks (r.useAll uses) (past ++ r.heard uses) := by
  induction uses generalizing r past with
  | nil =>
    rw [heard, List.append_nil]
    exact h
  | cons u uses ih =>
    rw [heard, ← List.append_assoc]
    exact ih (h.use u)

/-- An enabled receiver that is fed samples stays enabled and hears them all. -/
theorem Tracks.feedAll (h : Tracks r past) (hen : r.sampler.enabled = true) (samples : List Bool) :
    Tracks (r.feedAll samples) (past ++ samples) ∧ (r.feedAll samples).sampler.enabled = true := by
  induction samples generalizing r past with
  | nil =>
    rw [List.append_nil]
    exact ⟨h, hen⟩
  | cons sample samples ih =>
    have hheard : r.heardOf (.call (.sample sample)) = [sample] := if_pos hen
    have hfeed := h.feed sample
    rw [hheard] at hfeed
    rw [List.append_cons]
    exact ih hfeed (Sampler.enabled_feed.trans hen)

theorem feedAll_append_singleton (r : Receiver C α) (samples : List Bool) (sample : Bool) :
    r.feedAll (samples ++ [sample]) = (r.feedAll samples).feed sample := by
  induction samples generalizing r with
  | nil => rfl
  | cons s samples ih => exact ih (r.feed s)

end Receiver

end MeterRadio
