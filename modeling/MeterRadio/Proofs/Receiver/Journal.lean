import Mathlib.Data.List.Basic
import MeterRadio.Proofs.Receiver.Run
import MeterRadio.Receiver.Journal

/-!
# What one call does, and what a run of calls comes to

A call finds a message, polls the ring, asks for the number of lost frames, or does nothing that a
ring or a count would show (`effect`). Everything about the journal of a run is an induction over the
calls whose step is a look at these four cases.

The frames that wait in the ring link what was taken to what was handled (`conserved_run`). The counts
are those of the handled frames (`stats_run`), and the records that listeners get were read from them
(`exists_handled_of_delivery`).
-/

namespace MeterRadio

open Line (Capture)

namespace Receiver

variable {C α β : Type}

theorem queues_start (capacity : Nat) (clock : C) :
    (ofCapacity capacity clock : Receiver C α).ring.Queues [] :=
  FrameRing.queues_ofCapacity capacity

/-- The call leaves the receiver on or off and its listener in place. -/
inductive Call.Plain : Call C α → Prop
  | sample (value : Bool) : Call.Plain (.sample value)
  | setClock (clock : C) : Call.Plain (.setClock clock)
  | process : Call.Plain .process
  | takeOverflow : Call.Plain .takeOverflow

theorem samples_map_sample (batch : List Bool) :
    (batch.map (Call.sample : Bool → Call C α)).flatMap Call.samples = batch := by
  rw [List.flatMap_map]
  exact List.flatMap_singleton' batch

variable [Clock C] {r : Receiver C α} {c : Call C α} {calls : List (Call C α)}
  {frames : List Bytes} {s : Stamped}

/-! ## The four cases -/

/-- A call that a ring and the counts do not notice. -/
structure Quiet (r : Receiver C α) (c : Call C α) : Prop where
  found : r.foundBy c = []
  handled : r.handledBy c = []
  ring : (r.call c).2.ring = r.ring
  stats : (r.call c).2.dispatcher.stats = r.dispatcher.stats
  reply : (r.call c).1 = .done

/-- A call that completes a message, whose frame is offered to the ring. -/
structure Finds (r : Receiver C α) (c : Call C α) (s : Stamped) : Prop where
  found : r.foundBy c = [s]
  handled : r.handledBy c = []
  ring : (r.call c).2.ring = (r.ring.push s.frame).2
  stats : (r.call c).2.dispatcher.stats = r.dispatcher.stats
  reply : (r.call c).1 = .done

/-- What a call can do. -/
inductive Effect (r : Receiver C α) : Call C α → Prop
  | quiet {c : Call C α} (h : Quiet r c) : Effect r c
  | finds {c : Call C α} (s : Stamped) (h : Finds r c s) : Effect r c
  | polls : Effect r .process
  | asks : Effect r .takeOverflow

theorem effect (r : Receiver C α) (c : Call C α) : Effect r c := by
  cases c with
  | sample value =>
    cases hen : r.sampler.enabled with
    | false =>
      have hfeed : r.feed value = r := by
        rw [feed, Sampler.feed_of_disabled hen]
      refine Effect.quiet ⟨?_, rfl, ?_, ?_, rfl⟩
      · rw [foundBy, hen, if_neg Bool.false_ne_true]
      · exact congrArg Receiver.ring hfeed
      · exact congrArg (fun r => r.dispatcher.stats) hfeed
    | true =>
      cases hfound : (r.sampler.detector.feed value).2 with
      | none =>
        have hring : (r.sampler.feed r.ring value).2 = r.ring := by
          rw [Sampler.feed_of_none hen hfound]
        refine Effect.quiet ⟨?_, rfl, hring, rfl, rfl⟩
        rw [foundBy, if_pos hen, hfound]
        rfl
      | some capture =>
        have hring : (r.sampler.feed r.ring value).2 =
            (r.ring.push (capture.frame (Clock.read r.sampler.clock).1)).2 := by
          rw [Sampler.feed_of_some hen hfound]
        refine Effect.finds ⟨capture, (Clock.read r.sampler.clock).1⟩ ⟨?_, rfl, hring, rfl, rfl⟩
        rw [foundBy, if_pos hen, hfound]
        rfl
  | setEnabled enabled => exact Effect.quiet ⟨rfl, rfl, rfl, rfl, rfl⟩
  | setClock clock => exact Effect.quiet ⟨rfl, rfl, rfl, rfl, rfl⟩
  | register listener => exact Effect.quiet ⟨rfl, rfl, rfl, rfl, rfl⟩
  | clear => exact Effect.quiet ⟨rfl, rfl, rfl, rfl, rfl⟩
  | process => exact Effect.polls
  | takeOverflow => exact Effect.asks

/-! ## Runs in parts -/

theorem run_append (r : Receiver C α) (before after : List (Call C α)) :
    (r.run (before ++ after)).2 = ((r.run before).2.run after).2 := by
  induction before generalizing r with
  | nil => rfl
  | cons c before ih => exact ih (r.call c).2

theorem collect_append (observe : Receiver C α → Call C α → List β) (r : Receiver C α)
    (before after : List (Call C α)) :
    r.collect observe (before ++ after) =
      r.collect observe before ++ (r.run before).2.collect observe after := by
  induction before generalizing r with
  | nil => rfl
  | cons c before ih =>
    rw [List.cons_append, collect, collect, ih, List.append_assoc]
    rfl

theorem deliveries_append (r : Receiver C α) (before after : List (Call C α)) :
    r.deliveries (before ++ after) = r.deliveries before ++ (r.run before).2.deliveries after := by
  induction before generalizing r with
  | nil => rfl
  | cons c before ih =>
    show (r.call c).1.deliveries ++ (r.call c).2.deliveries (before ++ after) =
      (r.call c).1.deliveries ++ (r.call c).2.deliveries before ++ _
    rw [ih, List.append_assoc]
    rfl

theorem reportedLost_append (r : Receiver C α) (before after : List (Call C α)) :
    r.reportedLost (before ++ after) =
      r.reportedLost before + (r.run before).2.reportedLost after := by
  induction before generalizing r with
  | nil => exact (Nat.zero_add _).symm
  | cons c before ih =>
    show (r.call c).1.lost + (r.call c).2.reportedLost (before ++ after) =
      (r.call c).1.lost + (r.call c).2.reportedLost before + _
    rw [ih, Nat.add_assoc]
    rfl

theorem run_map_sample (r : Receiver C α) (batch : List Bool) :
    (r.run (batch.map Call.sample)).2 = r.feedAll batch := by
  induction batch generalizing r with
  | nil => rfl
  | cons value batch ih => exact ih (r.feed value)

theorem collect_concat (observe : Receiver C α → Call C α → List β) (r : Receiver C α)
    (init : List Bool) (last : Bool) :
    r.collect observe ((init ++ [last]).map Call.sample) =
      r.collect observe (init.map Call.sample) ++ observe (r.feedAll init) (.sample last) := by
  rw [List.map_append, collect_append, run_map_sample]
  exact congrArg _ (List.append_nil _)

theorem found_cons (r : Receiver C α) (c : Call C α) (calls : List (Call C α)) :
    r.found (c :: calls) = r.foundBy c ++ (r.call c).2.found calls := rfl

theorem taken_cons (r : Receiver C α) (c : Call C α) (calls : List (Call C α)) :
    r.taken (c :: calls) = r.takenBy c ++ (r.call c).2.taken calls := rfl

theorem refused_cons (r : Receiver C α) (c : Call C α) (calls : List (Call C α)) :
    r.refused (c :: calls) = r.refusedBy c ++ (r.call c).2.refused calls := rfl

theorem handled_cons (r : Receiver C α) (c : Call C α) (calls : List (Call C α)) :
    r.handled (c :: calls) = r.handledBy c ++ (r.call c).2.handled calls := rfl

theorem deliveries_cons (r : Receiver C α) (c : Call C α) (calls : List (Call C α)) :
    r.deliveries (c :: calls) = (r.call c).1.deliveries ++ (r.call c).2.deliveries calls := rfl

theorem reportedLost_cons (r : Receiver C α) (c : Call C α) (calls : List (Call C α)) :
    r.reportedLost (c :: calls) = (r.call c).1.lost + (r.call c).2.reportedLost calls := rfl

/-! ## Taken and refused -/

/-- What is found is taken or refused. -/
theorem perm_found (r : Receiver C α) (calls : List (Call C α)) :
    (r.taken calls ++ r.refused calls).Perm (r.found calls) := by
  induction calls generalizing r with
  | nil => exact List.Perm.nil
  | cons c calls ih =>
    have hcall : (r.takenBy c ++ r.refusedBy c).Perm (r.foundBy c) :=
      List.filter_append_perm r.takes (r.foundBy c)
    rw [found_cons, taken_cons, refused_cons, List.append_assoc]
    refine ((List.perm_append_comm_assoc _ _ _).append_left _).trans ?_
    rw [← List.append_assoc]
    exact hcall.append (ih _)

theorem length_found (r : Receiver C α) (calls : List (Call C α)) :
    (r.found calls).length = (r.taken calls).length + (r.refused calls).length := by
  rw [← (r.perm_found calls).length_eq, List.length_append]

theorem taken_sublist_found (r : Receiver C α) (calls : List (Call C α)) :
    (r.taken calls).Sublist (r.found calls) := by
  induction calls generalizing r with
  | nil => exact List.Sublist.slnil
  | cons c calls ih => exact List.filter_sublist.append (ih _)

/-! ## Where frames are -/

theorem capacity_call (r : Receiver C α) (c : Call C α) :
    (r.call c).2.ring.capacity = r.ring.capacity := by
  cases r.effect c with
  | quiet h => rw [h.ring]
  | finds s h =>
    rw [h.ring]
    exact FrameRing.capacity_pushTraced r.ring s.frame
  | polls =>
    rw [ring_process]
    exact r.ring.capacity_drain
  | asks => rfl

theorem capacity_run (r : Receiver C α) (calls : List (Call C α)) :
    (r.run calls).2.ring.capacity = r.ring.capacity := by
  induction calls generalizing r with
  | nil => rfl
  | cons c calls ih => exact (ih (r.call c).2).trans (r.capacity_call c)

theorem queues_process (h : r.ring.Queues frames) : (r.call .process).2.ring.Queues [] := by
  rw [ring_process]
  exact h.drain.2

/-- A message is taken or refused by the ring that it is offered to. -/
theorem Finds.taken (h : Finds r c s) :
    (r.takenBy c).map Stamped.frame = if (r.ring.push s.frame).1.isOk then [s.frame] else [] := by
  rw [takenBy, h.found, List.filter_singleton, takes]
  cases (r.ring.push s.frame).1.isOk <;> rfl

theorem Finds.length_refused (h : Finds r c s) :
    (r.refusedBy c).length = if (r.ring.push s.frame).1.isOk then 0 else 1 := by
  rw [refusedBy, h.found, List.filter_singleton, takes]
  cases (r.ring.push s.frame).1.isOk <;> rfl

/-- Frames that wait or are taken are handled or go on waiting, in their order. -/
theorem conserved_call (h : r.ring.Queues frames) (c : Call C α) :
    ∃ frames', (r.call c).2.ring.Queues frames' ∧
      frames ++ (r.takenBy c).map Stamped.frame = r.handledBy c ++ frames' := by
  cases r.effect c with
  | quiet hq =>
    refine ⟨frames, ?_, ?_⟩
    · rw [hq.ring]
      exact h
    · rw [takenBy, hq.found, hq.handled]
      exact List.append_nil _
  | finds s hs =>
    refine ⟨frames ++ (r.takenBy c).map Stamped.frame, ?_, ?_⟩
    · rw [hs.ring, hs.taken]
      exact h.push s.frame
    · rw [hs.handled]
      rfl
  | polls =>
    refine ⟨[], queues_process h, ?_⟩
    rw [← h.drain.1]
    rfl
  | asks => exact ⟨frames, h.takeOverflow, List.append_nil _⟩

/-- **No frame appears and none disappears.** The frames that waited and those that were taken are the
handled ones and those that wait in the end. -/
theorem conserved_run (h : r.ring.Queues frames) (calls : List (Call C α)) :
    ∃ frames', (r.run calls).2.ring.Queues frames' ∧
      frames ++ (r.taken calls).map Stamped.frame = r.handled calls ++ frames' := by
  induction calls generalizing r frames with
  | nil => exact ⟨frames, h, List.append_nil _⟩
  | cons c calls ih =>
    obtain ⟨mid, hmid, hcall⟩ := conserved_call h c
    obtain ⟨frames', hframes', hrest⟩ := ih hmid
    refine ⟨frames', hframes', ?_⟩
    rw [taken_cons, handled_cons, List.map_append, ← List.append_assoc, hcall, List.append_assoc,
      hrest, List.append_assoc]

/-- After a last poll nothing waits, and no lost frame is still to be reported. -/
theorem rest_run (h : r.ring.Queues frames) (calls : List (Call C α)) :
    let final := (r.run (calls ++ [.process, .takeOverflow])).2
    final.ring.Queues [] ∧ final.ring.overflow = 0 := by
  obtain ⟨frames', hframes', -⟩ := conserved_run h calls
  rw [run_append]
  exact ⟨(queues_process hframes').takeOverflow, rfl⟩

/-- If no frame waits at the beginning and none in the end, the handled frames are those that were
taken. -/
theorem handled_eq (h : r.ring.Queues []) (hend : (r.run calls).2.ring.Queues []) :
    r.handled calls = (r.taken calls).map Stamped.frame := by
  obtain ⟨frames, hframes, hconserved⟩ := conserved_run h calls
  have hempty : frames = [] := hframes.drain.1.symm.trans hend.drain.1
  rw [hempty, List.nil_append, List.append_nil] at hconserved
  exact hconserved.symm

/-- A frame that is handled was taken before. -/
theorem exists_taken_of_handled {capacity : Nat} {clock : C} {frame : Bytes}
    (h : frame ∈ (ofCapacity capacity clock : Receiver C α).handled calls) :
    ∃ s ∈ (ofCapacity capacity clock : Receiver C α).taken calls, s.frame = frame := by
  obtain ⟨rest, -, hconserved⟩ := conserved_run (queues_start capacity clock) calls
  have hmem := List.mem_append_left rest h
  rw [← hconserved, List.nil_append] at hmem
  exact List.mem_map.mp hmem

/-! ## What is made of the frames -/

theorem stats_call (r : Receiver C α) (c : Call C α) : (r.call c).2.dispatcher.stats =
    ((r.handledBy c).map Outcome.ofFrame).foldl Stats.count r.dispatcher.stats := by
  cases r.effect c with
  | quiet h
  | finds s h =>
    rw [h.stats, h.handled]
    rfl
  | polls => exact r.dispatcher.stats_process r.ring
  | asks => rfl

/-- The counts of a run are those of the frames that are handled. -/
theorem stats_run (r : Receiver C α) (calls : List (Call C α)) : (r.run calls).2.dispatcher.stats =
    ((r.handled calls).map Outcome.ofFrame).foldl Stats.count r.dispatcher.stats := by
  induction calls generalizing r with
  | nil => rfl
  | cons c calls ih =>
    rw [handled_cons, List.map_append, List.foldl_append, ← stats_call]
    exact ih (r.call c).2

theorem deliveries_call (r : Receiver C α) (c : Call C α) : (r.call c).1.deliveries =
    ((r.handledBy c).map Outcome.ofFrame).filterMap fun outcome =>
      r.dispatcher.listener.bind fun listener => outcome.delivery? listener := by
  cases r.effect c with
  | quiet h
  | finds s h =>
    rw [h.reply, h.handled]
    rfl
  | polls => exact congrArg Drained.deliveries (r.dispatcher.drained_process r.ring)
  | asks => rfl

/-- What a listener gets is what a handled frame was decoded to. -/
theorem exists_handled_of_delivery {d : Delivery α} (h : d ∈ r.deliveries calls) :
    ∃ frame ∈ r.handled calls, ∃ listener, (Outcome.ofFrame frame).delivery? listener = some d := by
  induction calls generalizing r with
  | nil => exact absurd h List.not_mem_nil
  | cons c calls ih =>
    rw [deliveries_cons, deliveries_call] at h
    rcases List.mem_append.mp h with hnow | hlater
    · obtain ⟨outcome, houtcome, hd⟩ := List.mem_filterMap.mp hnow
      obtain ⟨frame, hframe, rfl⟩ := List.mem_map.mp houtcome
      obtain ⟨listener, -, hlistener⟩ := Option.bind_eq_some_iff.mp hd
      exact ⟨frame, List.mem_append_left _ hframe, listener, hlistener⟩
    · obtain ⟨frame, hframe, hd⟩ := ih hlater
      exact ⟨frame, List.mem_append_right _ hframe, hd⟩

/-! ## Runs without switching -/

theorem Call.Plain.enabled (h : c.Plain) : (r.call c).2.sampler.enabled = r.sampler.enabled := by
  cases h with
  | sample value => exact Sampler.enabled_feed
  | setClock clock => rfl
  | process => rfl
  | takeOverflow => rfl

theorem Call.Plain.listener (h : c.Plain) :
    (r.call c).2.dispatcher.listener = r.dispatcher.listener := by
  cases h with
  | sample value => rfl
  | setClock clock => rfl
  | process => exact r.dispatcher.listener_process r.ring
  | takeOverflow => rfl

/-- An enabled receiver hears all samples. -/
theorem heard_of_plain (h : ∀ c ∈ calls, c.Plain) (hen : r.sampler.enabled = true) :
    r.heard (calls.map Use.call) = calls.flatMap Call.samples := by
  induction calls generalizing r with
  | nil => rfl
  | cons c calls ih =>
    rw [List.forall_mem_cons] at h
    have hnow : r.heardOf (.call c) = c.samples := by
      cases h.1 with
      | sample value => exact if_pos hen
      | _ => rfl
    rw [List.map_cons, heard, hnow, List.flatMap_cons]
    exact congrArg (c.samples ++ ·) (ih h.2 (h.1.enabled.trans hen))

/-- A disabled receiver hears nothing. -/
theorem heard_of_disabled (h : ∀ c ∈ calls, c.Plain) (hdis : r.sampler.enabled = false) :
    r.heard (calls.map Use.call) = [] := by
  induction calls generalizing r with
  | nil => rfl
  | cons c calls ih =>
    rw [List.forall_mem_cons] at h
    have hnow : r.heardOf (.call c) = [] := by
      cases h.1 with
      | sample value => exact if_neg (by rw [hdis]; exact Bool.false_ne_true)
      | _ => rfl
    rw [List.map_cons, heard, hnow]
    exact ih h.2 (h.1.enabled.trans hdis)

theorem heard_map_sample (hen : r.sampler.enabled = true) (batch : List Bool) :
    r.heard ((batch.map Call.sample).map Use.call) = batch := by
  have hplain : ∀ c ∈ (batch.map Call.sample : List (Call C α)), c.Plain := by
    intro c hc
    obtain ⟨value, -, rfl⟩ := List.mem_map.mp hc
    exact Call.Plain.sample value
  rw [heard_of_plain hplain hen, samples_map_sample]

/-- With one listener all along, the records are those of the handled frames. -/
theorem deliveries_of_plain (h : ∀ c ∈ calls, c.Plain) : r.deliveries calls =
    ((r.handled calls).map Outcome.ofFrame).filterMap fun outcome =>
      r.dispatcher.listener.bind fun listener => outcome.delivery? listener := by
  induction calls generalizing r with
  | nil => rfl
  | cons c calls ih =>
    rw [List.forall_mem_cons] at h
    rw [deliveries_cons, deliveries_call, ih h.2, h.1.listener, handled_cons, List.map_append,
      List.filterMap_append]

end Receiver

end MeterRadio
