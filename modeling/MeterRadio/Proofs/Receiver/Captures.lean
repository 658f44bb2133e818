import MeterRadio.Proofs.Frame
import MeterRadio.Proofs.Receiver.Journal

/-!
# What is found in a run

A message that is found ends with a sample that was heard (`Line.Capture.EndsAt`). What is found
depends on the samples alone, not on the ring, the clock or the polls between them (`captures_found`).

The frame of such a message is never one that nobody could have sent. It holds a valid message or one
whose checksum fails (`Outcome.genuine_ofFrame`), and the time in its header makes no difference to a
count or a listener (`Line.Capture.outcome`).
-/

namespace MeterRadio

open Line

/-- What becomes of a message, whenever its frame is made. -/
def Line.Capture.outcome (c : Capture) : Outcome :=
  Outcome.ofFrame (c.frame 0)

/-! ## Their frames -/

theorem Stamped.frame_ne_nil (s : Stamped) : s.frame ≠ [] := by
  intro h
  have hlen : s.frame.length = FrameHeader.size + s.capture.raw.length := s.capture.length_frame s.time
  simp [h, FrameHeader.size] at hlen
  omega

namespace Outcome

variable {c : Capture}

theorem ofFrame_frame (now : UInt32) (hlen : c.raw.length = c.kind.rawSize + 1) :
    ofFrame (c.frame now) =
      match Record.decode c.kind c.message with
      | .ok record =>
        accepted
          { header := FrameHeader.ofKind c.kind now c.bitOffset, record, raw := c.message }
      | .error e => dropped (.message e) := by
  rw [ofFrame, FrameContent.ofBytes_frame now hlen, ← Capture.message]
  dsimp only
  cases Record.decode c.kind c.message with
  | ok record => rfl
  | error e => rfl

/-- The frame held a message, valid or damaged. -/
def Genuine : Outcome → Prop
  | accepted _ => True
  | dropped (.message (.checksum ..)) => True
  | dropped _ => False

theorem genuine_ofFrame (now : UInt32) (hlen : c.raw.length = c.kind.rawSize + 1) :
    (ofFrame (c.frame now)).Genuine := by
  have hsize : c.kind.rawSize ≤ c.message.length := by
    rw [Capture.message, List.length_take, length_realign, hlen]
    omega
  rw [ofFrame_frame now hlen]
  -- the message has its full length, so nothing but the checksum can be wrong
  cases hdecode : Record.decode c.kind c.message with
  | ok record => exact trivial
  | error e =>
    obtain ⟨residual, rfl⟩ := Record.decode_error hsize hdecode
    exact trivial

theorem count_ofFrame_frame (now : UInt32) (hlen : c.raw.length = c.kind.rawSize + 1) (s : Stats) :
    s.count (ofFrame (c.frame now)) = s.count c.outcome := by
  rw [Capture.outcome, ofFrame_frame now hlen, ofFrame_frame 0 hlen]
  cases Record.decode c.kind c.message <;> rfl

theorem delivery?_ofFrame_frame {α : Type} (now : UInt32) (hlen : c.raw.length = c.kind.rawSize + 1)
    (listener : α) :
    (ofFrame (c.frame now)).delivery? listener = c.outcome.delivery? listener := by
  rw [Capture.outcome, ofFrame_frame now hlen, ofFrame_frame 0 hlen]
  cases Record.decode c.kind c.message <;> rfl

end Outcome

/-! ## Runs -/

namespace Receiver

variable {C α : Type} [Clock C] {r : Receiver C α} {past : List Bool} {c : Call C α}
  {calls : List (Call C α)} {s : Stamped}

theorem Tracks.endsAt_foundBy (h : Tracks r past) (hs : s ∈ r.foundBy c) :
    s.capture.EndsAt (past ++ r.heardOf (.call c)) := by
  cases c with
  | sample value =>
    rw [foundBy] at hs
    rw [heardOf]
    split_ifs at hs ⊢ with hen
    · obtain ⟨capture, hcapture, rfl⟩ := List.mem_map.mp hs
      exact h.detector.endsAt (Option.mem_toList.mp hcapture)
    · exact absurd hs List.not_mem_nil
  | _ => exact absurd hs List.not_mem_nil

/-- Every message that is found ends with one of the samples that were heard. -/
theorem Tracks.exists_endsAt (h : Tracks r past) (hs : s ∈ r.found calls) :
    ∃ now, now <+: past ++ r.heard (calls.map Use.call) ∧ s.capture.EndsAt now := by
  induction calls generalizing r past with
  | nil => exact absurd hs List.not_mem_nil
  | cons c calls ih =>
    rw [List.map_cons, heard, ← List.append_assoc]
    rcases List.mem_append.mp hs with hnow | hlater
    · exact ⟨_, List.prefix_append _ _, h.endsAt_foundBy hnow⟩
    · exact ih (h.use (.call c)) hlater

theorem Tracks.length_raw_of_taken (h : Tracks r past) (hs : s ∈ r.taken calls) :
    s.capture.raw.length = s.capture.kind.rawSize + 1 := by
  obtain ⟨now, -, hends⟩ := h.exists_endsAt ((r.taken_sublist_found calls).subset hs)
  exact hends.length_raw

theorem Tracks.exists_foundBy {value : Bool} {kind : Kind} (h : Tracks r past)
    (hen : r.sampler.enabled = true) (hkind : messageEnding? (past ++ [value]) = some kind) :
    ∃ s ∈ r.foundBy (.sample value), s.capture.EndsAt (past ++ [value]) := by
  obtain ⟨hfed, -⟩ := h.detector.feed_snd value
  rw [hkind] at hfed
  obtain ⟨capture, hcapture, -⟩ := Option.map_eq_some_iff.mp hfed
  refine ⟨⟨capture, (Clock.read r.sampler.clock).1⟩, ?_, h.detector.endsAt hcapture⟩
  rw [foundBy, if_pos hen, hcapture]
  exact List.mem_singleton_self _

/-- Every message that ends with one of the samples that are heard is found. -/
theorem Tracks.exists_found {new : List Bool} {kind : Kind} (h : Tracks r past) (hne : new ≠ [])
    (hnew : new <+: r.heard (calls.map Use.call))
    (hkind : messageEnding? (past ++ new) = some kind) :
    ∃ s ∈ r.found calls, s.capture.EndsAt (past ++ new) := by
  induction calls generalizing r past new with
  | nil => exact absurd (List.prefix_nil.mp hnew) hne
  | cons c calls ih =>
    rw [List.map_cons, heard] at hnew
    have hnext := h.use (.call c)
    have hsilent (hheard : r.heardOf (.call c) = []) :
        ∃ s ∈ r.found (c :: calls), s.capture.EndsAt (past ++ new) := by
      rw [hheard, List.append_nil] at hnext
      rw [hheard, List.nil_append] at hnew
      obtain ⟨s, hs, hends⟩ := ih hnext hne hnew hkind
      exact ⟨s, List.mem_append_right _ hs, hends⟩
    cases c with
    | sample value =>
      cases hen : r.sampler.enabled with
      | false => exact hsilent (by rw [heardOf, hen, if_neg Bool.false_ne_true])
      | true =>
        have hheard : r.heardOf (.call (.sample value)) = [value] := if_pos hen
        rw [hheard] at hnext hnew
        obtain ⟨v, new, rfl⟩ := List.exists_cons_of_ne_nil hne
        obtain ⟨rfl, hnew⟩ := List.cons_prefix_cons.mp hnew
        rw [List.append_cons] at hkind ⊢
        -- the message ends with this sample or with a later one
        by_cases hlast : new = []
        · rw [hlast, List.append_nil] at hkind ⊢
          obtain ⟨s, hs, hends⟩ := h.exists_foundBy hen hkind
          exact ⟨s, List.mem_append_left _ hs, hends⟩
        · obtain ⟨s, hs, hends⟩ := ih hnext hlast hnew hkind
          exact ⟨s, List.mem_append_right _ hs, hends⟩
    | _ => exact hsilent rfl

/-- What is found is what a detector finds that takes the samples that are heard. -/
theorem captures_found (r : Receiver C α) (calls : List (Call C α)) (index : Nat) :
    (r.found calls).map Stamped.capture =
      (r.sampler.detector.scan index (r.heard (calls.map Use.call))).2.map Prod.snd := by
  induction calls generalizing r index with
  | nil => rfl
  | cons c calls ih =>
    cases c with
    | sample value =>
      show (r.foundBy (.sample value) ++ (r.feed value).found calls).map Stamped.capture =
        (r.sampler.detector.scan index
          (r.heardOf (.call (.sample value)) ++ (r.feed value).heard (calls.map Use.call))).2.map
            Prod.snd
      rw [List.map_append, foundBy, heardOf]
      cases hen : r.sampler.enabled with
      | true =>
        have hdetector : (r.feed value).sampler.detector = (r.sampler.detector.feed value).1 :=
          Sampler.detector_feed hen
        rw [if_pos rfl, if_pos rfl, List.singleton_append, Detector.captures_cons, ih _ (index + 1),
          hdetector]
        cases (r.sampler.detector.feed value).2 <;> rfl
      | false =>
        have hfeed : r.feed value = r := by rw [feed, Sampler.feed_of_disabled hen]
        rw [if_neg Bool.false_ne_true, if_neg Bool.false_ne_true, hfeed]
        exact ih r index
    | _ => exact ih _ index

/-! ## What a listener gets -/

/-- The listener gets the valid messages among those that were taken. -/
theorem Tracks.deliveries_eq (h : Tracks r past) (hplain : ∀ c ∈ calls, c.Plain)
    (hempty : r.ring.Queues []) (hend : (r.run calls).2.ring.Queues []) :
    r.deliveries calls = ((r.taken calls).map Stamped.capture).filterMap fun capture =>
      r.dispatcher.listener.bind fun listener => capture.outcome.delivery? listener := by
  rw [deliveries_of_plain hplain, handled_eq hempty hend, List.map_map, List.filterMap_map,
    List.filterMap_map]
  refine List.filterMap_congr fun s hs => ?_
  have hlen := h.length_raw_of_taken hs
  simp only [Function.comp_apply]
  cases r.dispatcher.listener with
  | none => rw [Option.bind_none, Option.bind_none]
  | some listener => exact Outcome.delivery?_ofFrame_frame s.time hlen listener

/-- The counts are those of the messages that were taken. -/
theorem Tracks.stats_eq (h : Tracks r past) (hempty : r.ring.Queues [])
    (hend : (r.run calls).2.ring.Queues []) :
    (r.run calls).2.dispatcher.stats = ((r.taken calls).map Stamped.capture).foldl
      (fun stats capture => stats.count capture.outcome) r.dispatcher.stats := by
  rw [stats_run, handled_eq hempty hend, List.map_map, List.foldl_map, List.foldl_map]
  refine List.foldl_ext _ _ _ fun stats s hs => ?_
  exact Outcome.count_ofFrame_frame s.time (h.length_raw_of_taken hs) stats

end Receiver

end MeterRadio
