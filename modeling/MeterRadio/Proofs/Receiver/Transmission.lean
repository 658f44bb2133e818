import MeterRadio.Proofs.Receiver.Accounting
import MeterRadio.Proofs.Receiver.Authenticity
import MeterRadio.Proofs.Receiver.Filling
import MeterRadio.Proofs.Receiver.Location

/-!
# What is reported of one message

A new receiver with a listener hears a lead-in and a message and is polled when it is over. Its ring takes
the frames of all that was found if they have room together; else the message itself, which comes last
and is the longest, is the one that is lost (`Transmission`).

An SCM holds no other message: it is reported exactly once (`deliveries_scm`). A message of
another format is reported exactly once unless one that it holds is valid, or there is no room
(`exists_transmission`), which for an SCM+ there always is.
-/

namespace MeterRadio

open Line

namespace Receiver

variable {C α : Type} {kind : Kind} {raw : Bytes} {lead : List Bool} {early : List Stamped}
  {sent s : Stamped} {record : Record}

/-! ## Records -/

/-- The frame of a capture, with its length. -/
theorem stored_frame {samples : List Bool} (h : s.capture.EndsAt samples) :
    FrameRing.stored s.frame = FrameRing.prefixSize + s.capture.kind.frameSize := by
  rw [FrameRing.stored, Stamped.frame, Capture.length_frame, h.length_raw]
  rfl

/-- The records that a listener gets of the valid ones among some messages. -/
def recordsOf (listener : α) (messages : List Stamped) : List (Delivery α) :=
  messages.filterMap fun s => s.capture.outcome.delivery? listener

theorem outcome_of_decode {c : Capture} (hlen : c.raw.length = c.kind.rawSize + 1)
    (hdecode : Record.decode c.kind c.message = .ok record) :
    c.outcome = .accepted
      { header := FrameHeader.ofKind c.kind 0 c.bitOffset, record, raw := c.message } := by
  rw [Capture.outcome, Outcome.ofFrame_frame 0 hlen, hdecode]

/-- A capture counts for something exactly if it is a valid message. -/
theorem delivery?_eq_none_iff {samples : List Bool} (h : s.capture.EndsAt samples) (listener : α) :
    s.capture.outcome.delivery? listener = none ↔ ¬IsMessage s.capture.kind s.capture.message := by
  cases hdecode : Record.decode s.capture.kind s.capture.message with
  | ok record =>
    have hmessage := h.isMessage (Record.checkEnvelope_of_decode hdecode)
    rw [outcome_of_decode h.length_raw hdecode]
    exact ⟨fun hnone => absurd hnone (Option.some_ne_none _), fun hnot => absurd hmessage hnot⟩
  | error e =>
    have hdropped : s.capture.outcome.delivery? listener = none := by
      rw [Capture.outcome, Outcome.ofFrame_frame 0 h.length_raw, hdecode]
      rfl
    refine ⟨fun _ hmessage => ?_, fun _ => hdropped⟩
    obtain ⟨record, hok⟩ := Record.decode_ok hmessage.envelope
    cases hok.symm.trans hdecode

theorem length_raw_of_delivery {d : Delivery α} {listener : α} {samples : List Bool}
    (h : s.capture.EndsAt samples) (hd : s.capture.outcome.delivery? listener = some d) :
    d.raw.length = s.capture.kind.rawSize := by
  have hsize : s.capture.message.length = s.capture.kind.rawSize := by
    rw [Capture.message, List.length_take, length_realign, h.length_raw]
    omega
  cases hdecode : Record.decode s.capture.kind s.capture.message with
  | ok record =>
    rw [outcome_of_decode h.length_raw hdecode] at hd
    obtain rfl := Option.some.inj hd
    exact hsize
  | error e =>
    rw [Capture.outcome, Outcome.ofFrame_frame 0 h.length_raw, hdecode] at hd
    cases hd

namespace Locates

variable {listener : α} (h : Locates kind raw lead early sent)

include h

theorem stored_le (hs : s ∈ early) : FrameRing.stored s.frame ≤ FrameRing.stored sent.frame := by
  obtain ⟨hlt, now, -, -, -, hends⟩ := h.early s hs
  rw [stored_frame hends, stored_frame h.endsAt, h.kind_eq, Kind.frameSize, Kind.frameSize]
  omega

/-- The record of the message itself. -/
theorem recordsOf_sent (hdecode : Record.decode kind raw = .ok record) :
    recordsOf listener [sent] = [{ listener, record, kind := record.kind, raw }] := by
  rw [← h.kind_eq, ← h.message_eq] at hdecode
  rw [recordsOf, List.filterMap_cons, outcome_of_decode h.endsAt.length_raw hdecode, h.message_eq]
  rfl

theorem length_raw_lt {d : Delivery α} (hd : d ∈ recordsOf listener early) :
    d.raw.length < kind.rawSize := by
  obtain ⟨s, hs, hdelivery⟩ := List.mem_filterMap.mp hd
  obtain ⟨hlt, now, -, -, -, hends⟩ := h.early s hs
  rw [length_raw_of_delivery hends hdelivery]
  exact hlt

theorem recordsOf_eq_nil_iff (listener : α) : recordsOf listener early = [] ↔
    ∀ s ∈ early, ¬IsMessage s.capture.kind s.capture.message := by
  rw [recordsOf, List.filterMap_eq_nil_iff]
  refine forall₂_congr fun s hs => ?_
  obtain ⟨-, now, -, -, -, hends⟩ := h.early s hs
  exact delivery?_eq_none_iff hends listener

end Locates

/-! ## A single poll at the end -/

theorem polled_singleton (batch : List Bool) :
    (polled [batch] : List (Call C α)) = batch.map Call.sample ++ [Call.process] := by
  rw [polled, List.flatMap_singleton]

variable [Clock C] {r : Receiver C α}

theorem collect_polled {β : Type} {observe : Receiver C α → Call C α → List β}
    (hprocess : ∀ r : Receiver C α, observe r .process = []) (r : Receiver C α) (batch : List Bool) :
    r.collect observe (polled [batch]) = r.collect observe (batch.map Call.sample) := by
  rw [polled_singleton, collect_append]
  show _ ++ (observe _ .process ++ []) = _
  rw [hprocess, List.append_nil, List.append_nil]

/-! ## One message -/

/-- What becomes of a message that is sent behind the samples `lead`, and of all that is found
earlier. -/
structure Transmission (r : Receiver C α) (kind : Kind) (raw : Bytes) (lead : List Bool)
    (report : Delivery α) (early : List Stamped) (sent : Stamped) : Prop where
  found : r.found (polled [lead ++ manchester raw]) = early ++ [sent]
  locates : Locates kind raw lead early sent
  /-- All frames are taken if they have room together. -/
  refused_iff : r.refused (polled [lead ++ manchester raw]) = [] ↔
    storedSize (early ++ [sent]) < r.ring.capacity
  /-- Then the record of the message is the last one. -/
  deliveries_eq : storedSize (early ++ [sent]) < r.ring.capacity →
    r.deliveries (polled [lead ++ manchester raw]) = recordsOf report.listener early ++ [report]
  /-- Else it is lost. -/
  lost : r.ring.capacity ≤ storedSize (early ++ [sent]) →
    (r.deliveries (polled [lead ++ manchester raw])).Sublist (recordsOf report.listener early)
  /-- No other record is taken for it. -/
  not_mem : report ∉ recordsOf report.listener early
  once_iff : r.deliveries (polled [lead ++ manchester raw]) = [report] ↔
    storedSize (early ++ [sent]) < r.ring.capacity ∧
      ∀ s ∈ early, ¬IsMessage s.capture.kind s.capture.message

namespace Transmission

variable {report : Delivery α} (h : Transmission r kind raw lead report early sent)
  (htracks : Tracks r []) (hen : r.sampler.enabled = true)

include h htracks hen

end Transmission

section New

variable {capacity : Nat}

/-- What the ring of a new receiver takes. -/
theorem exists_taken (husable : FrameRing.Usable capacity) (hmessage : IsMessage kind raw)
    (hkind : kind ≠ .idm18) (clock : C) (listener : α) (stray : Bool) (zeros : Nat) :
    let r : Receiver C α := ofListener capacity clock (some listener)
    let calls := polled [leadIn stray zeros ++ manchester raw]
    ∃ early sent, r.found calls = early ++ [sent] ∧ Locates kind raw (leadIn stray zeros) early sent ∧
      (r.refused calls = [] ↔ storedSize (early ++ [sent]) < r.ring.capacity) ∧
      (r.ring.capacity ≤ storedSize (early ++ [sent]) → (r.taken calls).Sublist early) := by
  intro r calls
  have hfilled : r.ring.Filled 0 := FrameRing.filled_ofCapacity husable
  have hne : leadIn stray zeros ++ manchester raw ≠ [] :=
    List.append_ne_nil_of_right_ne_nil _ hmessage.manchester_ne_nil
  obtain ⟨init, last, hsplit⟩ : ∃ init last, leadIn stray zeros ++ manchester raw = init ++ [last] :=
    ⟨_, _, (List.dropLast_concat_getLast hne).symm⟩
  obtain ⟨sent, hsent, hlocates⟩ :=
    exists_locates (tracks_ofListener capacity clock (some listener)) rfl hmessage hkind hsplit
  have hall : r.found ((init ++ [last]).map Call.sample) =
      r.found (init.map Call.sample) ++ [sent] := by
    rw [found, collect_concat, hsent]
    rfl
  have hfound : r.found calls = r.found (init.map Call.sample) ++ [sent] := by
    rw [found, collect_polled fun _ => rfl, hsplit]
    exact hall
  refine ⟨_, sent, hfound, hlocates, ?_, fun hfull => ?_⟩
  · rw [refused, collect_polled fun _ => rfl, hsplit, ← hall, ← Nat.zero_add (storedSize _)]
    exact refused_eq_nil_iff hfilled fun c => ne_process_of_mem_samples
  · rw [storedSize_append, storedSize_singleton, ← Nat.zero_add (storedSize _)] at hfull
    have hrefused := takes_eq_false hfilled (fun c => ne_process_of_mem_samples)
      (fun other hother => hlocates.stored_le hother) hfull
    rw [run_map_sample] at hrefused
    have htaken : r.taken calls = r.taken (init.map Call.sample) := by
      rw [taken, collect_polled fun _ => rfl, hsplit, collect_concat, takenBy, hsent,
        List.filter_singleton, hrefused]
      exact List.append_nil _
    rw [htaken]
    exact taken_sublist_found r _

theorem deliveries_eq_recordsOf (clock : C) (listener : α) (batch : List Bool) :
    let r : Receiver C α := ofListener capacity clock (some listener)
    r.deliveries (polled [batch]) = recordsOf listener (r.taken (polled [batch])) := by
  intro r
  rw [deliveries_polled (tracks_ofListener capacity clock (some listener))
    (queues_ofListener capacity clock (some listener)), List.filterMap_map]
  rfl

theorem exists_transmission_of_isMessage (husable : FrameRing.Usable capacity)
    (hmessage : IsMessage kind raw) (hkind : kind ≠ .idm18) (hdecode : Record.decode kind raw = .ok record)
    (clock : C) (listener : α) (stray : Bool) (zeros : Nat) :
    ∃ early sent, Transmission (ofListener capacity clock (some listener) : Receiver C α) kind raw
      (leadIn stray zeros) { listener, record, kind := record.kind, raw } early sent := by
  obtain ⟨early, sent, hfound, hlocates, hrefused, hlost⟩ :=
    exists_taken (C := C) husable hmessage hkind clock listener stray zeros
  let r : Receiver C α := ofListener capacity clock (some listener)
  let calls : List (Call C α) := polled [leadIn stray zeros ++ manchester raw]
  let report : Delivery α := { listener, record, kind := record.kind, raw }
  have hfits (hroom : storedSize (early ++ [sent]) < r.ring.capacity) :
      r.deliveries calls = recordsOf listener early ++ [report] := by
    rw [deliveries_eq_recordsOf, taken_eq_found (hrefused.mpr hroom), hfound, recordsOf,
      List.filterMap_append]
    exact congrArg _ (hlocates.recordsOf_sent hdecode)
  have hsub (hfull : r.ring.capacity ≤ storedSize (early ++ [sent])) :
      (r.deliveries calls).Sublist (recordsOf listener early) := by
    rw [deliveries_eq_recordsOf]
    exact (hlost hfull).filterMap _
  have hnot : report ∉ recordsOf listener early := by
    intro hmem
    have hlt := hlocates.length_raw_lt hmem
    rw [← hmessage.length_eq] at hlt
    exact Nat.lt_irrefl _ hlt
  refine ⟨early, sent, hfound, hlocates, hrefused, hfits, hsub, hnot, ?_⟩
  rw [← hlocates.recordsOf_eq_nil_iff listener]
  constructor
  · intro hone
    have hroom : storedSize (early ++ [sent]) < r.ring.capacity := by
      by_contra hfull
      have hmem : report ∈ r.deliveries calls := hone ▸ List.mem_singleton_self report
      exact hnot ((hsub (Nat.le_of_not_lt hfull)).subset hmem)
    exact ⟨hroom, List.append_left_eq_self.mp ((hfits hroom).symm.trans hone)⟩
  · rintro ⟨hroom, hempty⟩
    exact (hfits hroom).trans (by rw [hempty]; rfl)

/-- **An SCM is reported exactly once.** A new receiver with a listener and a ring that has room for one
SCM hears a lead-in and an encoded SCM and is polled when it is over. Nothing but the message is found,
in either alignment; the listener gets its record and nothing else, and nothing else is counted. -/
theorem deliveries_scm (hlow : 22 ≤ capacity) (hhigh : capacity ≤ 65535) (m : Scm) (stray : Bool)
    (zeros : Nat) (clock : C) (listener : α) :
    let raw := m.encode
    let r : Receiver C α := ofListener capacity clock (some listener)
    let samples := leadIn stray zeros ++ manchester raw
    let calls := polled [samples]
    ∃ s record, Scm.decode raw = .ok record ∧
      r.found calls = [s] ∧ s.capture.kind = .scm ∧ s.capture.message = raw ∧
      s.capture.EndsAt samples ∧
      r.deliveries calls = [{ listener, record := .scm record, kind := .scm, raw }] ∧
      (r.run calls).2.dispatcher.stats = { accepted := 1 } ∧
      (r.run calls).2.takeOverflow.1 = 0 := by
  intro raw r samples calls
  have husable : FrameRing.Usable capacity := ⟨by rw [FrameRing.prefixSize]; omega, hhigh⟩
  have hcap : r.ring.capacity = capacity := FrameRing.capacity_ofCapacity husable
  have hmessage : IsMessage .scm raw := m.isMessage_encode
  obtain ⟨record, hdecode⟩ := Record.decode_ok hmessage.envelope
  obtain ⟨content, hcontent, rfl⟩ := map_eq_ok hdecode
  obtain ⟨early, sent, h⟩ := exists_transmission_of_isMessage husable hmessage Kind.noConfusion
    hdecode clock listener stray zeros
  -- there is no shorter message that it could hold
  obtain rfl : early = [] := by
    refine List.eq_nil_iff_forall_not_mem.mpr fun s hs => ?_
    exact absurd (h.locates.early s hs).1 (Nat.not_lt.mpr s.capture.kind.le_rawSize)
  have hends := h.locates.endsAt
  have hroom : storedSize ([] ++ [sent]) < r.ring.capacity := by
    have hsize : FrameRing.prefixSize + Kind.scm.frameSize = 21 := rfl
    rw [List.nil_append, storedSize_singleton, stored_frame hends, h.locates.kind_eq, hsize]
    omega
  have hall := h.refused_iff.mpr hroom
  refine ⟨sent, content, hcontent, h.found, h.locates.kind_eq, h.locates.message_eq, hends,
    h.deliveries_eq hroom, ?_, overflow_run_of_refused (by omega) rfl hall⟩
  have houtcome := outcome_of_decode (c := sent.capture) hends.length_raw
    (by rw [h.locates.kind_eq, h.locates.message_eq]; exact hdecode)
  rw [stats_polled (tracks_ofListener capacity clock (some listener))
    (queues_ofListener capacity clock (some listener)), taken_eq_found hall, h.found,
    List.nil_append, List.map_singleton, List.foldl_cons, houtcome]
  rfl

/-- The smallest ring will do. -/
theorem deliveries_scm_smallest :
    22 ≤ 22 ∧ 22 ≤ 65535 ∧
      let r : Receiver SteppedClock Unit := ofListener 22 {} (some ())
      let calls := polled [leadIn true 3 ++ manchester (Scm.encode { id := 7 })]
      (r.found calls).length = 1 ∧ (r.deliveries calls).map Delivery.kind = [.scm] ∧
        (r.run calls).2.dispatcher.stats = { accepted := 1 } := by
  obtain ⟨s, record, hdecode, hfound, hkind, hraw, hends, hdeliveries, hstats, hoverflow⟩ :=
    deliveries_scm (by decide : 22 ≤ 22) (by decide : 22 ≤ 65535) { id := 7 } true 3
      ({} : SteppedClock) ()
  refine ⟨by decide, by decide, ?_, ?_, hstats⟩
  · rw [hfound]
    rfl
  · rw [hdeliveries]
    rfl

end New

end Receiver

end MeterRadio
