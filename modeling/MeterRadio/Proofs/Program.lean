import MeterRadio.Program
import MeterRadio.Proofs.Config
import MeterRadio.Proofs.Receiver.Accounting
import MeterRadio.Proofs.Replay.Session

/-!
# What the program tells about a capture

The program is a session with a new receiver (`Replay.Session.exists_made_run`), so what is known of the
runs of a receiver is known of it. Every message of the capture is told of: as a record, as a checksum
that did not hold, or as a frame that was lost, and the last report has these numbers (`tells_replay`). A
run of the program that does not fail is such a replay, of the capture that a valid configuration names
(`tells_run`).
-/

namespace MeterRadio.Program

open Receiver (Call)

/-- What a run tells about a capture of which the ring took the messages `taken` and refused the
others. -/
structure Tells (c : Config) (samples : List Bool) (r : Run) (taken : List Stamped) (stats : Stats)
    (dropped : UInt64) : Prop where
  /-- The messages are found by the receiver of the configuration. -/
  found : (taken.map Stamped.capture).Sublist ((receiver c.receiver).sampler.found samples)
  /-- There is one record for each valid message, in order. -/
  deliveries : r.deliveries =
    (taken.map Stamped.capture).filterMap fun m => m.outcome.delivery? ()
  /-- There is one line of the log for each message, in order, and a report at the end. -/
  log : ∃ lines, (taken.map fun s => (Outcome.ofFrame s.frame).logLine).Sublist lines ∧
    Replay.statusLines stats dropped <:+ lines ∧
    r.log = shownLines c.logging (openingLines c samples.length ++ lines)
  accepted : stats.accepted.toNat = r.deliveries.length
  /-- The messages that were taken are valid or damaged. -/
  handled : stats.accepted.toNat + stats.crcFailures.toNat = taken.length
  unknownKind : stats.unknownKind = 0
  malformed : stats.malformed = 0
  /-- The messages that were not taken are lost. -/
  lost : taken.length + dropped.toNat = ((receiver c.receiver).sampler.found samples).length

variable {c : Config} {samples : List Bool}

theorem tracks_receiver (c : ReceiverConfig) : Receiver.Tracks (receiver c) [] :=
  ⟨Line.Detector.heard_start, FrameRing.ready_ofCapacity c.ringCapacity⟩

theorem queues_receiver (c : ReceiverConfig) : (receiver c).ring.Queues [] :=
  FrameRing.queues_ofCapacity c.ringCapacity

/-- What the receiver has counted when nothing waits any more and all lost frames are reported. -/
theorem balance {c : ReceiverConfig} {calls : List (Call MonotonicClock Unit)}
    (husable : FrameRing.Usable c.ringCapacity) (hplain : ∀ call ∈ calls, call.Plain)
    (hshort : (calls.flatMap Call.samples).length < UInt32.size)
    (hend : ((receiver c).run calls).2.ring.Queues [])
    (hasked : ((receiver c).run calls).2.ring.overflow = 0) :
    let stats := ((receiver c).run calls).2.dispatcher.stats
    stats.accepted.toNat = ((receiver c).deliveries calls).length ∧
      stats.accepted.toNat + stats.crcFailures.toNat = ((receiver c).taken calls).length ∧
      stats.unknownKind = 0 ∧ stats.malformed = 0 ∧
      ((receiver c).taken calls).length + (receiver c).reportedLost calls =
        ((receiver c).found calls).length := by
  intro stats
  -- the receiver is a new one that was switched on or off and got its listener
  let new : Receiver MonotonicClock Unit := Receiver.ofCapacity c.ringCapacity {}
  let calls' := .setEnabled c.startEnabled :: .register () :: calls
  have hreported : new.reportedLost calls' = (receiver c).reportedLost calls :=
    (Nat.zero_add _).trans (Nat.zero_add _)
  have hfits : new.CountFits calls' := Receiver.countFits_of_samples hshort
  have hbalance : ((receiver c).found calls).length =
      ((receiver c).handled calls).length + ((receiver c).run calls).2.ring.drain.1.length +
        (new.reportedLost calls' + ((receiver c).run calls).2.ring.overflow.toNat) :=
    Receiver.length_found_eq husable hfits
  obtain ⟨valid, damaged, hboth, hvalid, hdamaged, hunknown, hmalformed⟩ :
      ∃ valid damaged, valid + damaged = ((receiver c).handled calls).length ∧
        stats.accepted = UInt64.ofNat valid ∧ stats.crcFailures = UInt64.ofNat damaged ∧
        stats.unknownKind = 0 ∧ stats.malformed = 0 :=
    Receiver.stats_genuine c.ringCapacity ({} : MonotonicClock) calls'
  have haccepted : stats.accepted = UInt64.ofNat ((receiver c).deliveries calls).length :=
    (Receiver.accepted_run hplain rfl).trans (UInt64.zero_add _)
  have htaken : ((receiver c).handled calls).length = ((receiver c).taken calls).length := by
    rw [Receiver.handled_eq (queues_receiver c) hend, List.length_map]
  have hdelivered : ((receiver c).deliveries calls).length ≤ ((receiver c).handled calls).length := by
    rw [Receiver.deliveries_of_plain hplain]
    exact (List.length_filterMap_le _ _).trans (Nat.le_of_eq (List.length_map _))
  rw [hreported, hend.drain.1, hasked, htaken] at hbalance
  rw [htaken] at hboth hdelivered
  -- there are not enough samples for a count to run over
  have hfew : ((receiver c).found calls).length < UInt64.size :=
    Nat.lt_trans (Nat.lt_of_le_of_lt ((receiver c).length_found_le calls) hshort) (by decide)
  have htoNat {n : Nat} (hn : n ≤ ((receiver c).taken calls).length) : (UInt64.ofNat n).toNat = n :=
    UInt64.toNat_ofNat_of_lt' (by omega)
  refine ⟨?_, ?_, hunknown, hmalformed, hbalance.symm⟩
  · rw [haccepted, htoNat hdelivered]
  · rw [hvalid, hdamaged, htoNat (by omega), htoNat (by omega), hboth]

/-- The calls of a session feed the samples and end with a poll. -/
theorem exists_made_session (c : Config) (samples : List Bool) :
    ∃ calls, Replay.Session.Made { receiver := receiver c.receiver } calls (session c samples) ∧
      calls.flatMap Call.samples = samples ∧
      ((receiver c.receiver).run calls).2.ring.Queues [] ∧
      ((receiver c.receiver).run calls).2.ring.overflow = 0 := by
  obtain ⟨hcount, calls, hmade, hsamples⟩ := Replay.Session.exists_made_run (fun _ => false)
    c.capture.bitRate c.dispatch { receiver := receiver c.receiver } samples
  rw [hcount.never fun _ => rfl, List.take_length] at hsamples
  refine ⟨_, hmade, ?_, Receiver.rest_run (queues_receiver c.receiver) calls⟩
  rw [List.flatMap_append, hsamples]
  exact List.append_nil samples

/-- **Every message of a capture is told of.** -/
theorem tells_replay (husable : FrameRing.Usable c.receiver.ringCapacity)
    (hshort : samples.length < UInt32.size) :
    ∃ taken stats dropped, Tells c samples (replay c samples) taken stats dropped := by
  obtain ⟨calls, hmade, hfed, hend, hasked⟩ := exists_made_session c samples
  obtain ⟨haccepted, hhandled, hunknown, hmalformed, hlost⟩ :=
    balance husable hmade.plain (hfed.symm ▸ hshort) hend hasked
  have hcaptures := Receiver.captures_found_of_plain hmade.plain (r := receiver c.receiver)
  rw [hfed] at hcaptures
  have hdeliveries : (replay c samples).deliveries = (receiver c.receiver).deliveries calls :=
    hmade.deliveries
  have hstats : ((receiver c.receiver).run calls).2.dispatcher.stats =
      (session c samples).receiver.dispatcher.stats :=
    congrArg (fun r => r.dispatcher.stats) hmade.receiver
  have hdropped : (session c samples).dropped.toNat = (receiver c.receiver).reportedLost calls := by
    have hword : (session c samples).dropped =
        UInt64.ofNat ((receiver c.receiver).reportedLost calls) :=
      hmade.dropped.trans (UInt64.zero_add _)
    have hle := (receiver c.receiver).length_found_le calls
    have hsize : UInt32.size ≤ UInt64.size := by decide
    rw [hfed] at hle
    rw [hword, UInt64.toNat_ofNat_of_lt' (by omega)]
  rw [hstats] at haccepted hhandled hunknown hmalformed
  refine ⟨(receiver c.receiver).taken calls, _, (session c samples).dropped,
    { found := ?_
      deliveries := ?_
      log := ?_
      accepted := ?_
      handled := hhandled
      unknownKind := hunknown
      malformed := hmalformed
      lost := ?_ }⟩
  · rw [← hcaptures]
    exact (Receiver.taken_sublist_found _ calls).map _
  · exact hdeliveries.trans ((tracks_receiver c.receiver).deliveries_eq hmade.plain
      (queues_receiver c.receiver) hend)
  · obtain ⟨lines, hlines, hsub⟩ := hmade.log
    obtain ⟨before, hreport⟩ := Replay.Session.exists_log_run (fun _ => false) c.capture.bitRate
      c.dispatch { receiver := receiver c.receiver } samples
    have htold : (session c samples).log.reverse = lines := hlines
    rw [show (session c samples).log.reverse = _ from hreport] at htold
    rw [Receiver.handled_eq (queues_receiver c.receiver) hend, List.map_map, List.map_map] at hsub
    refine ⟨lines, hsub, ⟨before, htold⟩, ?_⟩
    exact congrArg (fun log => shownLines c.logging (openingLines c samples.length ++ log)) hlines
  · rw [hdeliveries]
    exact haccepted
  · rw [← hcaptures, List.length_map, hdropped]
    exact hlost

/-- A run without failure is a replay. -/
theorem exists_replay_of_run {files : Files} {configPath : String}
    (h : (run files configPath).failure = none) :
    ∃ c text, Config.load (files.content configPath) = .ok c ∧
      readText (files.content c.capture.path) = .ok text ∧
      run files configPath = replay c (Line.parseSamples text) := by
  unfold run at h ⊢
  cases hload : Config.load (files.content configPath) with
  | error e =>
    rw [hload] at h
    cases h
  | ok c =>
    rw [hload] at h
    dsimp only at h ⊢
    split_ifs at h ⊢ with hlog
    cases htext : readText (files.content c.capture.path) with
    | error e =>
      rw [htext] at h
      cases h
    | ok text => exact ⟨c, text, rfl, htext, rfl⟩

/-- **A run of the program that does not fail tells of every message of the capture** that its
configuration names, if this has fewer than 2³² samples. -/
theorem tells_run {files : Files} {configPath : String}
    (h : (run files configPath).failure = none) :
    ∃ c text, Config.load (files.content configPath) = .ok c ∧
      readText (files.content c.capture.path) = .ok text ∧
      ((Line.parseSamples text).length < UInt32.size →
        ∃ taken stats dropped,
          Tells c (Line.parseSamples text) (run files configPath) taken stats dropped) := by
  obtain ⟨c, text, hload, htext, hrun⟩ := exists_replay_of_run h
  obtain ⟨_, tree, -, -, htree⟩ := Config.load_eq_ok_iff.mp hload
  have husable := Config.usable_of_validate (Config.ofTree_eq_ok_iff.mp htree).2
  refine ⟨c, text, hload, htext, fun hshort => ?_⟩
  rw [hrun]
  exact tells_replay husable hshort

end MeterRadio.Program
