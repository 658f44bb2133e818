import MeterRadio.Proofs.Receiver.Captures
import MeterRadio.Proofs.Receiver.Reception
import MeterRadio.Proofs.Ring.Room

/-!
# It makes no difference when a receiver is polled

A receiver takes samples and is polled now and then. When it is polled decides where in the ring a
frame lies and which time is in its header, and both are invisible to a listener: what becomes of a
message is decided by its bytes (`Line.Capture.outcome`). The records of a run are those of the messages
whose frames were taken (`deliveries_polled`), and these are some or all of those that a detector finds
among the samples. So two runs over the same samples can differ in lost frames only
(`deliveries_of_flatten_eq`).

Nothing is lost at all where the receiver is polled after each sample and its ring has room for two
IDMs (`refused_polled`).
-/

namespace MeterRadio

open Line

namespace Receiver

variable {C α : Type}

/-- A new receiver with a listener, or with none. -/
def ofListener (capacity : Nat) (clock : C) (listener : Option α) : Receiver C α :=
  { (ofCapacity capacity clock : Receiver C α) with dispatcher := { listener } }

theorem tracks_ofListener (capacity : Nat) (clock : C) (listener : Option α) :
    Tracks (ofListener capacity clock listener) [] :=
  ⟨Detector.heard_start, FrameRing.ready_ofCapacity capacity⟩

theorem queues_ofListener (capacity : Nat) (clock : C) (listener : Option α) :
    (ofListener capacity clock listener).ring.Queues [] :=
  FrameRing.queues_ofCapacity capacity

variable {batches : List (List Bool)} {c : Call C α}

/-! ## Samples and polls -/

theorem plain_of_mem_polled (h : c ∈ polled batches) : c.Plain := by
  obtain ⟨batch, -, hc⟩ := List.mem_flatMap.mp h
  rcases List.mem_append.mp hc with hsample | hprocess
  · obtain ⟨value, -, rfl⟩ := List.mem_map.mp hsample
    exact Call.Plain.sample value
  · rw [List.mem_singleton.mp hprocess]
    exact Call.Plain.process

theorem samples_polled (batches : List (List Bool)) :
    (polled batches : List (Call C α)).flatMap Call.samples = batches.flatten := by
  induction batches with
  | nil => rfl
  | cons batch batches ih =>
    rw [polled, List.flatMap_cons, List.flatMap_append, List.flatMap_append, samples_map_sample,
      List.flatten_cons, ← ih, List.flatMap_singleton]
    simp [Call.samples, polled]

/-- Every way to take samples and to poll in between, and at the end, is of this form. -/
theorem exists_polled {calls : List (Call C α)}
    (h : ∀ c ∈ calls, (∃ value, c = .sample value) ∨ c = .process) :
    ∃ batch batches, calls ++ [.process] = polled (batch :: batches) := by
  induction calls with
  | nil => exact ⟨[], [], rfl⟩
  | cons c calls ih =>
    rw [List.forall_mem_cons] at h
    obtain ⟨batch, batches, hcalls⟩ := ih h.2
    rcases h.1 with ⟨value, rfl⟩ | rfl
    · exact ⟨value :: batch, batches, congrArg (Call.sample value :: ·) hcalls⟩
    · exact ⟨[], batch :: batches, congrArg (Call.process :: ·) hcalls⟩

variable [Clock C] {r : Receiver C α} {past : List Bool} {calls : List (Call C α)}

/-- A poll leaves nothing behind. -/
theorem queues_polled (h : r.ring.Queues []) (batches : List (List Bool)) :
    (r.run (polled batches)).2.ring.Queues [] := by
  induction batches generalizing r with
  | nil => exact h
  | cons batch batches ih =>
    rw [polled, List.flatMap_cons, run_append, run_append]
    refine ih ?_
    obtain ⟨frames, hframes, -⟩ := conserved_run h (batch.map Call.sample)
    exact queues_process hframes

/-! ## What a listener gets -/

theorem deliveries_register (capacity : Nat) (clock : C) (listener : α) (calls : List (Call C α)) :
    (ofCapacity capacity clock).deliveries (.register listener :: calls) =
      (ofListener capacity clock (some listener)).deliveries calls := rfl

/-- The listener gets the valid messages among those that were taken. -/
theorem deliveries_polled (h : Tracks r past) (hempty : r.ring.Queues [])
    (batches : List (List Bool)) :
    r.deliveries (polled batches) =
      ((r.taken (polled batches)).map Stamped.capture).filterMap fun capture =>
        r.dispatcher.listener.bind fun listener => capture.outcome.delivery? listener :=
  h.deliveries_eq (fun _ => plain_of_mem_polled) hempty (queues_polled hempty batches)

/-- The counts are those of the messages that were taken. -/
theorem stats_polled (h : Tracks r past) (hempty : r.ring.Queues []) (batches : List (List Bool)) :
    (r.run (polled batches)).2.dispatcher.stats =
      ((r.taken (polled batches)).map Stamped.capture).foldl
        (fun stats capture => stats.count capture.outcome) r.dispatcher.stats :=
  h.stats_eq hempty (queues_polled hempty batches)

theorem taken_eq_found (h : r.refused calls = []) : r.taken calls = r.found calls := by
  refine (r.taken_sublist_found calls).eq_of_length ?_
  rw [length_found, h]
  rfl

/-! ## Polling often enough -/

/-- An empty ring with room for two IDMs has room for every frame of a capture. -/
theorem frame_le_freeSpace {c : Capture} {ring : FrameRing} (hlen : c.raw.length = c.kind.rawSize + 1)
    (hempty : ring.Queues []) (hcap : 202 ≤ ring.capacity) (now : UInt32) :
    (c.frame now).length ≤ ring.freeSpace := by
  have hholds : ring.Holds [] := hempty.holds (by omega)
  rw [c.length_frame, hlen]
  exact Nat.le_trans c.kind.frameSize_le (hholds.idm_le_freeSpace hcap)

/-- So it refuses nothing. -/
theorem refusedBy_eq_nil (h : Tracks r past) (hempty : r.ring.Queues [])
    (hcap : 202 ≤ r.ring.capacity) (c : Call C α) : r.refusedBy c = [] := by
  refine List.filter_eq_nil_iff.mpr fun s hs => ?_
  have hholds : r.ring.Holds [] := hempty.holds (by omega)
  have hroom := frame_le_freeSpace (h.endsAt_foundBy hs).length_raw hempty hcap s.time
  rw [takes, hholds.push_ok s.frame_ne_nil hroom]
  exact Bool.false_ne_true

/-- **A receiver that is polled after each sample loses nothing**, if its ring has room for two
IDMs. -/
theorem refused_polled (h : Tracks r past) (hempty : r.ring.Queues [])
    (hcap : 202 ≤ r.ring.capacity) (hbatches : ∀ batch ∈ batches, batch.length ≤ 1) :
    r.refused (polled batches) = [] := by
  induction batches generalizing r past with
  | nil => rfl
  | cons batch batches ih =>
    rw [List.forall_mem_cons] at hbatches
    have hpolled {r : Receiver C α} {past : List Bool} {frames : List Bytes} (h : Tracks r past)
        (hframes : r.ring.Queues frames) (hcap : 202 ≤ r.ring.capacity) :
        (r.call .process).2.refused (polled batches) = [] := by
      have hcap' : 202 ≤ (r.call .process).2.ring.capacity := by
        rw [capacity_call]
        exact hcap
      exact ih (h.use (.call .process)) (queues_process hframes) hcap' hbatches.2
    -- what a sample completes goes into an empty ring, and the poll empties it again
    match batch, hbatches.1 with
    | [], _ => exact hpolled h hempty hcap
    | [value], _ =>
      have hnow := refusedBy_eq_nil h hempty hcap (.sample value)
      obtain ⟨frames, hframes, -⟩ := conserved_call hempty (.sample value)
      have hcap' : 202 ≤ (r.call (.sample value)).2.ring.capacity := by
        rw [capacity_call]
        exact hcap
      show r.refusedBy (.sample value) ++
        (((r.call (.sample value)).2.call .process).2.refused (polled batches)) = []
      rw [hnow, List.nil_append]
      exact hpolled (h.use (.call (.sample value))) hframes hcap'
    | first :: second :: rest, hlen => exact absurd hlen (by simp)

/-- Nothing being lost, every valid message that is found reaches the listener. -/
theorem mem_deliveries_polled {listener : α} {s : Stamped} {record : Record} (h : Tracks r past)
    (hempty : r.ring.Queues []) (hlistener : r.dispatcher.listener = some listener)
    (hall : r.refused (polled batches) = []) (hs : s ∈ r.found (polled batches))
    (hdecode : Record.decode s.capture.kind s.capture.message = .ok record) :
    { listener, record, kind := record.kind, raw := s.capture.message } ∈
      r.deliveries (polled batches) := by
  rw [← taken_eq_found hall] at hs
  rw [deliveries_polled h hempty, hlistener]
  refine List.mem_filterMap.mpr ⟨s.capture, List.mem_map_of_mem hs, ?_⟩
  rw [Capture.outcome, Outcome.ofFrame_frame 0 (h.length_raw_of_taken hs), hdecode]
  rfl

/-- A message that is sent to a new receiver arrives, if its ring has room for two IDMs and it is
polled after each sample. -/
theorem mem_deliveries_of_message {capacity : Nat} {clock : C} {listener : α} {kind : Kind}
    {raw : Bytes} {record : Record} (husable : FrameRing.Usable capacity) (hcap : 202 ≤ capacity)
    (hmessage : IsMessage kind raw) (hkind : messageEnding? (manchester raw) = some kind)
    (hdecode : Record.decode kind raw = .ok record) :
    { listener, record, kind := record.kind, raw } ∈
      (ofListener capacity clock (some listener)).deliveries
        (polled ((manchester raw).map fun value => [value])) := by
  have htracks := tracks_ofListener capacity clock (some listener)
  have hempty := queues_ofListener capacity clock (some listener)
  have hroom : 202 ≤ (ofListener capacity clock (some listener)).ring.capacity := by
    show 202 ≤ (FrameRing.ofCapacity capacity).capacity
    rw [FrameRing.capacity_ofCapacity husable]
    exact hcap
  have hbatches : ∀ batch ∈ (manchester raw).map fun value => [value], batch.length ≤ 1 := by
    intro batch hbatch
    obtain ⟨value, -, rfl⟩ := List.mem_map.mp hbatch
    exact Nat.le_refl 1
  have hall := refused_polled htracks hempty hroom hbatches
  have hsamples : (ofListener capacity clock (some listener)).heard
      ((polled ((manchester raw).map fun value => [value])).map Use.call) = manchester raw := by
    rw [heard_of_plain (fun c hc => plain_of_mem_polled hc) rfl, samples_polled,
      ← List.flatMap_def, List.flatMap_singleton']
  have hheard : manchester raw <+: (ofListener capacity clock (some listener)).heard
      ((polled ((manchester raw).map fun value => [value])).map Use.call) :=
    ⟨[], by rw [List.append_nil, hsamples]⟩
  rw [← List.nil_append (manchester raw)] at hkind
  obtain ⟨s, hs, hends⟩ := htracks.exists_found hmessage.manchester_ne_nil hheard hkind
  -- the latest bits in phase with the last sample are all bits of the message
  have hbits := lastBits_manchester [] raw
  rw [hmessage.length_eq] at hbits
  obtain ⟨hskind, hraw⟩ := hends.eq_of_lastBits hkind hbits
  rw [← hskind, ← hraw] at hdecode
  have hmem := mem_deliveries_polled htracks hempty rfl hall hs hdecode
  rw [hraw] at hmem
  exact hmem

/-! ## Two runs -/

section Two

variable {C₁ C₂ : Type} [Clock C₁] [Clock C₂] {capacity₁ capacity₂ : Nat} {clock₁ : C₁} {clock₂ : C₂}
  {listener : Option α} {batches₁ batches₂ : List (List Bool)}

/-- The messages that a new receiver finds are those of its samples. -/
theorem captures_found_polled (capacity : Nat) (clock : C) (listener : Option α)
    (batches : List (List Bool)) :
    ((ofListener capacity clock listener).found (polled batches)).map Stamped.capture =
      (Detector.start.scan 0 batches.flatten).2.map Prod.snd := by
  have hplain : ∀ c ∈ (polled batches : List (Call C α)), c.Plain := fun c => plain_of_mem_polled
  have hdetector : (ofListener capacity clock listener).sampler.detector = Detector.start := rfl
  rw [captures_found _ _ 0, heard_of_plain hplain rfl, samples_polled, hdetector]

/-- **Polling at other times changes nothing but what is lost.** Two new receivers with the same
listener, with rings of any size and clocks of any sort, take the same samples and are polled in
between, and at the end. If the second one loses no frame, the first one hands over some of its records
in the same order; if neither does, both hand over the same records and count the same. -/
theorem deliveries_of_flatten_eq (h : batches₁.flatten = batches₂.flatten) :
    let r₁ : Receiver C₁ α := ofListener capacity₁ clock₁ listener
    let r₂ : Receiver C₂ α := ofListener capacity₂ clock₂ listener
    (r₂.refused (polled batches₂) = [] →
      (r₁.deliveries (polled batches₁)).Sublist (r₂.deliveries (polled batches₂))) ∧
    (r₁.refused (polled batches₁) = [] → r₂.refused (polled batches₂) = [] →
      r₁.deliveries (polled batches₁) = r₂.deliveries (polled batches₂) ∧
        (r₁.run (polled batches₁)).2.dispatcher.stats =
          (r₂.run (polled batches₂)).2.dispatcher.stats) := by
  intro r₁ r₂
  have hfound : (r₁.found (polled batches₁)).map Stamped.capture =
      (r₂.found (polled batches₂)).map Stamped.capture := by
    rw [captures_found_polled, captures_found_polled, h]
  have htracks₁ : Tracks r₁ [] := tracks_ofListener capacity₁ clock₁ listener
  have htracks₂ : Tracks r₂ [] := tracks_ofListener capacity₂ clock₂ listener
  have hempty₁ : r₁.ring.Queues [] := queues_ofListener capacity₁ clock₁ listener
  have hempty₂ : r₂.ring.Queues [] := queues_ofListener capacity₂ clock₂ listener
  rw [deliveries_polled htracks₁ hempty₁, deliveries_polled htracks₂ hempty₂,
    stats_polled htracks₁ hempty₁, stats_polled htracks₂ hempty₂]
  constructor
  · -- the first run took some of the messages that the second one took without exception
    intro hall₂
    rw [taken_eq_found hall₂, ← hfound]
    exact ((r₁.taken_sublist_found (polled batches₁)).map Stamped.capture).filterMap _
  · intro hall₁ hall₂
    rw [taken_eq_found hall₁, taken_eq_found hall₂, hfound]
    exact ⟨rfl, rfl⟩

/-- Rings of 512 and 202 bytes, polled once and twice for each sample of an SCM, deliver it alike, and
a ring of 24 bytes that is polled at the end delivers nothing else. -/
theorem deliveries_of_flatten_eq_scm :
    let samples := manchester (Scm.encode { id := 7 })
    let once := samples.map fun value => [value]
    let twice := samples.flatMap fun value => [[], [value]]
    let r : Receiver SteppedClock Unit := ofListener 512 {} (some ())
    let r' : Receiver SteppedClock Unit := ofListener 202 { now := 5, step := 1 } (some ())
    let small : Receiver SteppedClock Unit := ofListener 24 {} (some ())
    once.flatten = twice.flatten ∧ r.refused (polled once) = [] ∧ r'.refused (polled twice) = [] ∧
      (∃ d ∈ r'.deliveries (polled twice), d.kind = .scm) ∧
      r.deliveries (polled once) = r'.deliveries (polled twice) ∧
      (small.deliveries (polled [samples])).Sublist (r.deliveries (polled once)) := by
  intro samples once twice r r' small
  have hsame : once.flatten = twice.flatten := by decide +kernel
  have hone : [samples].flatten = once.flatten := by decide +kernel
  have hr : r.refused (polled once) = [] := by
    have hcap : r.ring.capacity = 512 := FrameRing.capacity_ofCapacity (by decide)
    have hlen : ∀ batch ∈ once, batch.length ≤ 1 := by decide +kernel
    exact refused_polled (tracks_ofListener 512 _ _) (queues_ofListener 512 _ _) (by omega) hlen
  have hr' : r'.refused (polled twice) = [] := by
    have hcap : r'.ring.capacity = 202 := FrameRing.capacity_ofCapacity (by decide)
    have hlen : ∀ batch ∈ twice, batch.length ≤ 1 := by decide +kernel
    exact refused_polled (tracks_ofListener 202 _ _) (queues_ofListener 202 _ _) (by omega) hlen
  have heq := ((deliveries_of_flatten_eq hsame).2 hr hr').1
  refine ⟨hsame, hr, hr', ?_, heq, (deliveries_of_flatten_eq hone).1 hr⟩
  rw [← heq]
  have hmessage : IsMessage .scm (Scm.encode { id := 7 }) := Scm.isMessage_encode { id := 7 }
  have hkind : messageEnding? samples = some .scm := by decide +kernel
  obtain ⟨record, hdecode⟩ := Record.decode_ok hmessage.envelope
  have hscm : record.kind = .scm := by
    obtain ⟨m, -, rfl⟩ := map_eq_ok hdecode
    rfl
  exact ⟨_, mem_deliveries_of_message (by decide) (by decide) hmessage hkind hdecode, hscm⟩

end Two

end Receiver

end MeterRadio
