import MeterRadio.Proofs.Replay.Batch
import MeterRadio.Replay.Session

/-!
# A session is a run of its receiver

Whatever a session does, it does by calls to its receiver, and what these answer is what it keeps
(`Made`). The calls of a whole replay feed the samples as a replay alone does, with polls in between, and
poll once more at the end (`exists_made_run`). The sampling side does not notice the polls: it ends up as
after a replay alone, clock and all (`sampler_run`).
-/

namespace MeterRadio.Replay

open Receiver (Call)

variable {C : Type} [Timer C]

namespace Session

variable {s t u : Session C} {calls more : List (Call C Unit)}

/-- The session `s` becomes `t` by making these calls to its receiver. -/
structure Made (s : Session C) (calls : List (Call C Unit)) (t : Session C) : Prop where
  plain : ∀ c ∈ calls, c.Plain
  receiver : (s.receiver.run calls).2 = t.receiver
  deliveries : t.deliveries.reverse = s.deliveries.reverse ++ s.receiver.deliveries calls
  /-- The log has a line about each frame that is handled. -/
  log : ∃ lines, t.log.reverse = s.log.reverse ++ lines ∧
    (((s.receiver.handled calls).map Outcome.ofFrame).map Outcome.logLine).Sublist lines
  dropped : t.dropped = s.dropped + UInt64.ofNat (s.receiver.reportedLost calls)

theorem Made.append (h : Made s calls t) (h' : Made t more u) : Made s (calls ++ more) u where
  plain := by
    intro c hc
    exact (List.mem_append.mp hc).elim (h.plain c) (h'.plain c)
  receiver := by rw [Receiver.run_append, h.receiver, h'.receiver]
  deliveries := by
    rw [Receiver.deliveries_append, h.receiver, h'.deliveries, h.deliveries, List.append_assoc]
  log := by
    obtain ⟨lines, hlines, hsub⟩ := h.log
    obtain ⟨lines', hlines', hsub'⟩ := h'.log
    refine ⟨lines ++ lines', by rw [hlines', hlines, List.append_assoc], ?_⟩
    rw [Receiver.handled, Receiver.collect_append, h.receiver, List.map_append, List.map_append]
    exact hsub.append hsub'
  dropped := by
    rw [Receiver.reportedLost_append, h.receiver, h'.dropped, h.dropped, UInt64.ofNat_add,
      UInt64.add_assoc]

theorem log_say {C : Type} (s : Session C) (lines : List LogLine) :
    (s.say lines).log.reverse = s.log.reverse ++ lines := by
  rw [say, List.reverse_append, List.reverse_reverse]

theorem Made.say (h : Made s calls t) (lines : List LogLine) : Made s calls (t.say lines) where
  plain := h.plain
  receiver := h.receiver
  deliveries := h.deliveries
  log := by
    obtain ⟨before, hbefore, hsub⟩ := h.log
    refine ⟨before ++ lines, ?_, hsub.trans (List.sublist_append_left before lines)⟩
    rw [log_say, hbefore, List.append_assoc]
  dropped := h.dropped

theorem made_drain (s : Session C) : Made s [.process, .takeOverflow] s.drain where
  plain := by
    intro c hc
    rcases List.mem_pair.mp hc with rfl | rfl
    · exact Call.Plain.process
    · exact Call.Plain.takeOverflow
  receiver := rfl
  deliveries := by
    show (s.receiver.process.1.deliveries.reverse ++ s.deliveries).reverse =
      s.deliveries.reverse ++ (s.receiver.process.1.deliveries ++ [])
    rw [List.reverse_append, List.reverse_reverse, List.append_nil]
  log := by
    refine ⟨s.receiver.process.1.log, ?_, ?_⟩
    · show (s.receiver.process.1.log.reverse ++ s.log).reverse = _
      rw [List.reverse_append, List.reverse_reverse]
    · show (((s.receiver.ring.drain.1 ++ []).map Outcome.ofFrame).map Outcome.logLine).Sublist
        (s.receiver.dispatcher.process s.receiver.ring).1.log
      rw [List.append_nil, Dispatcher.drained_process]
      exact List.Sublist.refl _
  dropped := by
    have hlost : s.receiver.reportedLost [.process, .takeOverflow] =
        s.receiver.process.2.takeOverflow.1.toNat := Nat.zero_add _
    rw [hlost, UInt64.ofNat_uInt32ToNat]
    rfl

/-- Calls that only feed change nothing but the receiver. -/
theorem made_of_feeds {samples : List Bool} (h : Receiver.Feeds calls samples) :
    Made s calls { s with receiver := (s.receiver.run calls).2 } := by
  obtain ⟨hdeliveries, hhandled, hlost⟩ := h.silent s.receiver
  exact
    { plain := h.plain
      receiver := rfl
      deliveries := by rw [hdeliveries, List.append_nil]
      log := ⟨[], (List.append_nil _).symm, by rw [hhandled]; exact List.Sublist.refl _⟩
      dropped := by rw [hlost]; exact (UInt64.add_zero _).symm }

/-- The session `s` becomes `t` by making calls that feed these samples. -/
def Fed (s : Session C) (samples : List Bool) (t : Session C) : Prop :=
  ∃ calls, Made s calls t ∧ calls.flatMap Call.samples = samples

theorem Fed.append {past new : List Bool} (h : Fed s past t) (h' : Fed t new u) :
    Fed s (past ++ new) u := by
  obtain ⟨calls, hmade, hsamples⟩ := h
  obtain ⟨calls', hmade', hsamples'⟩ := h'
  refine ⟨calls ++ calls', hmade.append hmade', ?_⟩
  rw [List.flatMap_append, hsamples, hsamples']

/-- Whatever the loop does, no sample is fed. -/
theorem Fed.poll {past : List Bool} (h : Fed s past t) (rate : UInt32) (c : DispatchConfig) (fed : Nat)
    (batch : List Bool) : Fed s past (t.poll rate c fed batch) := by
  have hdrain : Fed s past t.drain :=
    List.append_nil past ▸ h.append ⟨_, made_drain t, rfl⟩
  have hreport {u : Session C} (hu : Fed s past u) : Fed s past u.report := by
    obtain ⟨calls, hmade, hsamples⟩ := hu
    exact ⟨calls, hmade.say _, hsamples⟩
  rw [Session.poll]
  split_ifs
  · exact hreport hdrain
  · exact hreport h
  · exact hdrain
  · exact h

theorem Fed.step {past : List Bool} (h : Fed s past t) (rate : UInt32) (c : DispatchConfig)
    (start fed : Nat) (batch : List Bool) :
    Fed s (past ++ batch) (t.step rate c start fed batch) := by
  obtain ⟨clock, hbatch⟩ := exists_run_eq_feedBatch rate start t.receiver fed batch
  have hfeeds : Receiver.Feeds (batch.map .sample ++ [.setClock clock] : List (Call C Unit)) batch :=
    Receiver.feeds_batch batch clock
  have hmade : Made t _ _ := made_of_feeds hfeeds
  rw [hbatch] at hmade
  exact (h.append ⟨_, hmade, hfeeds.samples_eq⟩).poll rate c fed batch

/-- **A session is a run of its receiver.** The calls feed as many samples as a replay alone feeds, in
order and each of them once, and end with a poll; what they answer is what the session has written
down. -/
theorem exists_made_run (stop : Nat → Bool) (rate : UInt32) (c : DispatchConfig) (s : Session C)
    (samples : List Bool) :
    let fed := (run stop rate c s samples).1
    let final := (run stop rate c s samples).2
    FedCount stop rate samples.length fed ∧
      ∃ calls, Made s (calls ++ [.process, .takeOverflow]) final ∧
        calls.flatMap Call.samples = samples.take fed := by
  intro fed final
  let start := (Timer.now s.receiver.sampler.clock).1
  let clock := (Timer.now s.receiver.sampler.clock).2
  have hstart : Fed s [] { s with receiver := s.receiver.setClock clock } :=
    ⟨[.setClock clock], made_of_feeds (Receiver.feeds_setClock clock), rfl⟩
  obtain ⟨hcount, calls, hmade, hsamples⟩ := feedBatches_batches (P := fun t past => Fed s past t)
    (fun t past batch h => h.step rate c start _ batch) hstart stop rate samples
  refine ⟨hcount, calls, ?_, hsamples⟩
  exact ((hmade.say [finishedLine _]).append (made_drain _)).say _

/-- The log of a session ends with a report. -/
theorem exists_log_run (stop : Nat → Bool) (rate : UInt32) (c : DispatchConfig) (s : Session C)
    (samples : List Bool) :
    let final := (run stop rate c s samples).2
    ∃ lines, final.log.reverse =
      lines ++ statusLines final.receiver.dispatcher.stats final.dropped :=
  ⟨_, log_say _ _⟩

/-! ## The sampling side -/

theorem sampler_poll {C : Type} (rate : UInt32) (c : DispatchConfig) (s : Session C) (fed : Nat)
    (batch : List Bool) : (s.poll rate c fed batch).receiver.sampler = s.receiver.sampler := by
  rw [poll]
  split_ifs <;> rfl

/-- **The sampling side does not notice the polls.** It is fed as many samples as by a replay alone and
ends up the same, whatever ring it pushes into. -/
theorem sampler_run (stop : Nat → Bool) (rate : UInt32) (c : DispatchConfig) (s : Session C)
    (ring : FrameRing) (samples : List Bool) :
    (run stop rate c s samples).1 = (Replay.run stop rate s.receiver.sampler ring samples).1 ∧
      (run stop rate c s samples).2.receiver.sampler =
        (Replay.run stop rate s.receiver.sampler ring samples).2.1 := by
  let R (t : Session C) (a : Sampler C × FrameRing) : Prop := t.receiver.sampler = a.1
  let start := (Timer.now s.receiver.sampler.clock).1
  have hstep (t : Session C) (a : Sampler C × FrameRing) (fed : Nat) (batch : List Bool) (h : R t a) :
      R (t.step rate c start fed batch) (feedBatch rate start a fed batch) := by
    obtain ⟨sampler, ring'⟩ := a
    obtain rfl : t.receiver.sampler = sampler := h
    have hfeed := t.receiver.sampler.feedAll_fst t.receiver.ring ring' batch
    show ((t.feed rate start fed batch).poll rate c fed batch).receiver.sampler = _
    rw [sampler_poll]
    exact congrArg (fun sampler : Sampler C =>
      { sampler with clock := Timer.sleepUntil (start + due rate fed) sampler.clock }) hfeed
  exact feedBatches_rel hstep rfl stop 0 0 (batches (batchSize rate) samples)

end Session

end MeterRadio.Replay
