import MeterRadio.Proofs.Frame
import MeterRadio.Proofs.Line.Detector
import MeterRadio.Receiver.Gating

/-!
# What a sampler does

A sampler is a detector that is fed the samples which arrive while the sampler is enabled. For each
message that the detector finds, the clock is read once and one frame is pushed, and nothing else is
done to the clock and the ring (`framing`, by induction over the calls). The memory in which the frames
are put together does not show in them, whatever was pushed before and whether the ring took it or not
(`gated_run`).
-/

namespace MeterRadio

open Line

namespace Sampler

variable {C : Type} [Clock C] {s : Sampler C} {ring : FrameRing} {sample : Bool} {c : Capture}

/-! ## One sample -/

theorem take_of_disabled (h : s.enabled = false) : s.take sample = (none, s) := by
  obtain ⟨detector, clock, enabled, buffer⟩ := s
  obtain rfl : enabled = false := h
  rfl

theorem take_of_none (h : s.enabled = true) (hfound : (s.detector.feed sample).2 = none) :
    s.take sample = (none, { s with detector := (s.detector.feed sample).1 }) := by
  obtain ⟨detector, clock, enabled, buffer⟩ := s
  obtain rfl : enabled = true := h
  have hfeed : detector.feed sample = ((detector.feed sample).1, none) := Prod.ext rfl hfound
  rw [take, if_pos rfl, hfeed]

theorem take_of_some (h : s.enabled = true) (hfound : (s.detector.feed sample).2 = some c) :
    s.take sample =
      (some (c.frame (Clock.read s.clock).1),
        { s with
          detector := (s.detector.feed sample).1
          clock := (Clock.read s.clock).2
          buffer := c.assemble (Clock.read s.clock).1 s.buffer }) := by
  obtain ⟨detector, clock, enabled, buffer⟩ := s
  obtain rfl : enabled = true := h
  have hfeed : detector.feed sample = ((detector.feed sample).1, some c) := Prod.ext rfl hfound
  rw [take, if_pos rfl, hfeed]
  dsimp only
  rw [Capture.front_assemble _ _ (Detector.length_raw_le hfound)]

theorem feed_of_disabled (h : s.enabled = false) : s.feed ring sample = (s, ring) := by
  rw [feed, take_of_disabled h]

theorem feed_of_none (h : s.enabled = true) (hfound : (s.detector.feed sample).2 = none) :
    s.feed ring sample = ({ s with detector := (s.detector.feed sample).1 }, ring) := by
  rw [feed, take_of_none h hfound]

theorem feed_of_some (h : s.enabled = true) (hfound : (s.detector.feed sample).2 = some c) :
    s.feed ring sample =
      ({ s with
          detector := (s.detector.feed sample).1
          clock := (Clock.read s.clock).2
          buffer := c.assemble (Clock.read s.clock).1 s.buffer },
        (ring.push (c.frame (Clock.read s.clock).1)).2) := by
  rw [feed, take_of_some h hfound]

theorem detector_feed (h : s.enabled = true) :
    (s.feed ring sample).1.detector = (s.detector.feed sample).1 := by
  cases hfound : (s.detector.feed sample).2 with
  | none => rw [feed_of_none h hfound]
  | some c => rw [feed_of_some h hfound]

theorem enabled_feed : (s.feed ring sample).1.enabled = s.enabled := by
  cases h : s.enabled with
  | false => rw [feed_of_disabled h, h]
  | true =>
    cases hfound : (s.detector.feed sample).2 with
    | none => rw [feed_of_none h hfound, h]
    | some c => rw [feed_of_some h hfound, h]

theorem feed_fst (s : Sampler C) (ring : FrameRing) (sample : Bool) :
    (s.feed ring sample).1 = (s.take sample).2 := by
  unfold feed
  rcases s.take sample with ⟨_ | frame, s⟩
  · rfl
  · rfl

/-- What a sampler becomes does not depend on the ring. -/
theorem feedAll_fst (s : Sampler C) (ring ring' : FrameRing) (samples : List Bool) :
    (s.feedAll ring samples).1 = (s.feedAll ring' samples).1 := by
  induction samples generalizing s ring ring' with
  | nil => rfl
  | cons sample samples ih =>
    show ((s.feed ring sample).1.feedAll _ samples).1 = ((s.feed ring' sample).1.feedAll _ samples).1
    rw [feed_fst, feed_fst]
    exact ih _ _ _

/-- A sample pushes at most one frame. -/
theorem ring_feed (s : Sampler C) (ring : FrameRing) (sample : Bool) : (s.feed ring sample).2 = ring ∨
    ∃ frame, (s.feed ring sample).2 = (ring.push frame).2 := by
  unfold feed
  rcases s.take sample with ⟨_ | frame, s⟩
  · exact Or.inl rfl
  · exact Or.inr ⟨frame, rfl⟩

/-! ## Calls in order -/

/-- What calls come to if these messages are found on the way. -/
structure Framing (s : Sampler C) (ring : FrameRing) (calls : List Call) (captures : List Capture) :
    Prop where
  /-- The detector has taken the samples that were heard, and no others. -/
  detector : (s.run ring calls).1.detector = s.detector.feedAll (heard s.enabled calls)
  /-- The clock was read once for each message. -/
  clock : (s.run ring calls).1.clock = Clock.after s.clock captures.length
  /-- For each message a frame was pushed that holds its header, with the reading of the clock that was
  made for it, and its bytes. -/
  offered : s.offered ring calls = List.zipWith
    (fun c now => (FrameHeader.ofKind c.kind now c.bitOffset).toBytes ++ c.raw) captures
    (Clock.readings s.clock captures.length)
  /-- Nothing else was done to the ring. -/
  ring : (s.run ring calls).2 = (ring.run ((s.offered ring calls).map FrameRing.Op.push)).2

/-- A disabled sampler can only be switched on. -/
theorem call_of_disabled (h : s.enabled = false) (ring : FrameRing) (call : Call) :
    (s.call ring call).1.detector = s.detector ∧ (s.call ring call).1.clock = s.clock ∧
      (s.call ring call).2 = ring ∧ s.offeredBy call = [] := by
  cases call with
  | setEnabled enabled => exact ⟨rfl, rfl, rfl, rfl⟩
  | sample value =>
    unfold Sampler.call offeredBy
    dsimp only
    rw [feed_of_disabled h, take_of_disabled h]
    exact ⟨rfl, rfl, rfl, rfl⟩

theorem heard_cons (s : Sampler C) (ring : FrameRing) (call : Call) (calls : List Call) :
    heard s.enabled (call :: calls) =
      heard s.enabled [call] ++ heard (s.call ring call).1.enabled calls := by
  cases call with
  | setEnabled enabled => rfl
  | sample value =>
    have henabled : (s.call ring (.sample value)).1.enabled = s.enabled := enabled_feed
    rw [henabled, heard, heard]
    cases s.enabled <;> rfl

theorem framing_sample {value : Bool} {frame? : Option Bytes} {s' : Sampler C}
    {captures : List Capture} (ring : FrameRing) (htake : s.take value = (frame?, s'))
    (hdetector : s'.detector = s.detector.feedAll (heard s.enabled [.sample value]))
    (hclock : s'.clock = Clock.after s.clock captures.length)
    (hframe : frame?.toList =
      List.zipWith Capture.frame captures (Clock.readings s.clock captures.length)) :
    s.Framing ring [.sample value] captures := by
  have hsampler : (s.run ring [.sample value]).1 = s' := by
    show (s.feed ring value).1 = s'
    rw [feed, htake]
    cases frame? <;> rfl
  have hoffered : s.offered ring [.sample value] = frame?.toList := by
    rw [offered, offeredBy, htake, offered, List.append_nil]
  refine ⟨?_, ?_, ?_, ?_⟩
  · rw [hsampler, hdetector]
  · rw [hsampler, hclock]
  · exact hoffered.trans hframe
  · show (s.feed ring value).2 = _
    rw [hoffered, feed, htake]
    cases frame? <;> rfl

theorem framing_call (s : Sampler C) (ring : FrameRing) (call : Call) (index : Nat) :
    s.Framing ring [call] ((s.detector.scan index (heard s.enabled [call])).2.map Prod.snd) := by
  cases call with
  | setEnabled enabled => exact ⟨rfl, rfl, rfl, rfl⟩
  | sample value =>
    cases h : s.enabled with
    | false => exact framing_sample ring (take_of_disabled h) (by rw [h]; rfl) rfl rfl
    | true =>
      have hheard : heard s.enabled [.sample value] = [value] := by rw [h]; rfl
      rw [← h, hheard, Detector.captures_cons]
      cases hfound : (s.detector.feed value).2 with
      | none => exact framing_sample ring (take_of_none h hfound) (by rw [hheard]; rfl) rfl rfl
      | some c => exact framing_sample ring (take_of_some h hfound) (by rw [hheard]; rfl) rfl rfl

theorem Framing.cons {call : Call} {calls : List Call} {found captures : List Capture}
    (h : s.Framing ring [call] found)
    (hrest : (s.call ring call).1.Framing (s.call ring call).2 calls captures) :
    s.Framing ring (call :: calls) (found ++ captures) := by
  have hdetector : (s.call ring call).1.detector = s.detector.feedAll (heard s.enabled [call]) :=
    h.detector
  have hclock : (s.call ring call).1.clock = Clock.after s.clock found.length := h.clock
  have hring : (s.call ring call).2 = (ring.run ((s.offered ring [call]).map FrameRing.Op.push)).2 :=
    h.ring
  have hoffered : s.offered ring (call :: calls) =
      s.offered ring [call] ++ (s.call ring call).1.offered (s.call ring call).2 calls := by
    rw [Sampler.offered, Sampler.offered, Sampler.offered, List.append_nil]
  refine ⟨?_, ?_, ?_, ?_⟩
  · rw [s.heard_cons ring, Detector.feedAll_append, ← hdetector]
    exact hrest.detector
  · rw [List.length_append, Clock.after_add, ← hclock]
    exact hrest.clock
  · rw [hoffered, h.offered, hrest.offered, hclock, List.length_append, Clock.readings_add]
    exact (List.zipWith_append (Clock.length_readings _ _).symm).symm
  · rw [hoffered, List.map_append, FrameRing.run_append, ← hring]
    exact hrest.ring

theorem framing (s : Sampler C) (ring : FrameRing) (calls : List Call) (index : Nat) :
    s.Framing ring calls ((s.detector.scan index (heard s.enabled calls)).2.map Prod.snd) := by
  induction calls generalizing s ring index with
  | nil => exact ⟨rfl, rfl, rfl, rfl⟩
  | cons call calls ih =>
    have hcall := s.framing_call ring call index
    have hdetector : (s.call ring call).1.detector = s.detector.feedAll (heard s.enabled [call]) :=
      hcall.detector
    rw [s.heard_cons ring, Detector.captures_append, ← hdetector]
    exact hcall.cons (ih _ _ _)

theorem exists_of_mem_offered {calls : List Call} {captures : List Capture} {frame : Bytes}
    (h : s.Framing ring calls captures) (hframe : frame ∈ s.offered ring calls) :
    ∃ c ∈ captures, ∃ now, frame = c.frame now := by
  rw [h.offered, ← List.map_uncurry_zip_eq_zipWith] at hframe
  obtain ⟨⟨c, now⟩, hmem, rfl⟩ := List.mem_map.mp hframe
  exact ⟨c, (List.of_mem_zip hmem).1, now, rfl⟩

/-- **Gating and framing.** A new sampler makes any calls. Let a new detector take the samples that
arrived while the sampler was enabled, and no others. The sampler reads its clock once for each message
which that detector finds, and pushes one frame for it: its header, with that reading, and its bytes,
one more than its kind has. Nothing else is done to the ring, and it does not matter whether the ring
takes the frames. No frame is longer than 99 bytes. A call that is made while the sampler is disabled
leaves the detector, the clock and the ring as they are and pushes nothing. -/
theorem gated_run (clock : C) (ring : FrameRing) (calls : List Call) :
    ({ clock } : Sampler C).Framing ring calls (captures calls) ∧
      (∀ c ∈ captures calls, c.raw.length = c.kind.rawSize + 1) ∧
      (∀ frame ∈ ({ clock } : Sampler C).offered ring calls, frame.length ≤ 99) ∧
      ∀ s ring', ({ clock } : Sampler C).run ring calls = (s, ring') → s.enabled = false →
        ∀ call, (s.call ring' call).1.detector = s.detector ∧ (s.call ring' call).1.clock = s.clock ∧
          (s.call ring' call).2 = ring' ∧ s.offeredBy call = [] := by
  have hframing : ({ clock } : Sampler C).Framing ring calls (captures calls) := framing _ _ _ 0
  have hlen (c : Capture) (hc : c ∈ captures calls) : c.raw.length = c.kind.rawSize + 1 :=
    Detector.heard_start.length_raw hc
  refine ⟨hframing, hlen, ?_, ?_⟩
  · intro frame hframe
    obtain ⟨c, hc, now, rfl⟩ := exists_of_mem_offered hframing hframe
    have hmax : c.kind.rawSize ≤ 92 := c.kind.rawSize_le
    rw [c.length_frame, hlen c hc, FrameHeader.size]
    omega
  · intro s ring' _ hdisabled call
    exact call_of_disabled hdisabled ring' call

end Sampler

end MeterRadio
