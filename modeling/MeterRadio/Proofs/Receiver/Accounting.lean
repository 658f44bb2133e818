import MeterRadio.Proofs.Receiver.Captures

/-!
# No message is lost unaccounted

A message that is found is taken by the ring or refused. If it is taken, its frame is handled by a poll
or still waits. If it is handled, it counts as valid or as damaged, because no frame of a capture is
anything else (`Outcome.count_of_genuine`). If it is refused, the ring counts it, and what the ring has
counted was reported or is still to be reported (`overflow_run`). `found_accounted` adds this up.

The counts are machine words. The one for lost frames is asked for and set back now and then, so a bound
on what is lost in between keeps it from running over. The ones for handled frames are never set back:
they hold what was handled modulo 2⁶⁴ (`stats_genuine`), which is all of it for as long as there is less.
-/

namespace MeterRadio

open Line

namespace Outcome

theorem Genuine.verdict_eq {o : Outcome} (h : o.Genuine) :
    o.verdict = .accepted ∨ o.verdict = .crcFailure := by
  cases o with
  | accepted content => exact Or.inl rfl
  | dropped reason =>
    cases reason with
    | malformed len => exact h.elim
    | unknownKind tag => exact h.elim
    | message e =>
      cases e with
      | truncated kind expected actual => exact h.elim
      | checksum kind residual => exact Or.inr rfl
      | range e => exact h.elim

/-- Frames that held messages have two of the four verdicts only. -/
theorem count_of_genuine {outcomes : List Outcome} (h : ∀ o ∈ outcomes, o.Genuine) :
    let verdicts := outcomes.map verdict
    verdicts.count .accepted + verdicts.count .crcFailure = outcomes.length ∧
      verdicts.count .unknownKind = 0 ∧ verdicts.count .malformed = 0 := by
  intro verdicts
  induction outcomes with
  | nil => exact ⟨rfl, rfl, rfl⟩
  | cons o outcomes ih =>
    rw [List.forall_mem_cons] at h
    obtain ⟨hboth, hunknown, hmalformed⟩ := ih h.2
    have hcons (v : Verdict) : verdicts.count v =
        (outcomes.map verdict).count v + if o.verdict = v then 1 else 0 := by
      simp only [verdicts, List.map_cons, List.count_cons, beq_iff_eq]
    rw [hcons, hcons, hcons, hcons, hunknown, hmalformed, List.length_cons, ← hboth]
    rcases h.1.verdict_eq with hv | hv
    · simp only [hv]
      exact ⟨by simp; omega, rfl, rfl⟩
    · simp only [hv]
      exact ⟨by simp; omega, rfl, rfl⟩

/-- A listener gets one record for each valid message. -/
theorem length_filterMap_delivery? {α : Type} (listener : α) (outcomes : List Outcome) :
    (outcomes.filterMap fun o => o.delivery? listener).length =
      (outcomes.map verdict).count .accepted := by
  induction outcomes with
  | nil => rfl
  | cons o outcomes ih =>
    rw [List.map_cons, List.count_cons, ← ih]
    cases o with
    | accepted content => rfl
    | dropped reason =>
      have hne : (dropped reason).verdict ≠ .accepted := by
        cases reason with
        | message e => cases e <;> exact nofun
        | _ => exact nofun
      rw [beq_false_of_ne hne]
      rfl

end Outcome

namespace Receiver

variable {C α : Type} [Clock C] {r : Receiver C α} {c : Call C α} {calls : List (Call C α)}

/-! ## Refused frames -/

/-- What was counted and what is refused now is reported or goes on being counted. -/
theorem overflow_call (hcap : r.ring.capacity ≠ 0)
    (hfits : r.ring.overflow.toNat + (r.refusedBy c).length < UInt32.size) :
    r.ring.overflow.toNat + (r.refusedBy c).length =
      (r.call c).1.lost + (r.call c).2.ring.overflow.toNat := by
  cases r.effect c with
  | quiet h =>
    rw [refusedBy, h.found, h.reply, h.ring]
    exact (Nat.zero_add _).symm
  | finds s h =>
    rw [h.length_refused] at hfits ⊢
    rw [h.reply, h.ring, FrameRing.overflow_push hcap s.frame_ne_nil, UInt32.toNat_add]
    -- the count is a machine word, which must not wrap around here
    have hsum : r.ring.overflow.toNat +
        (if (r.ring.push s.frame).1.isOk then 0 else 1 : UInt32).toNat < UInt32.size := by
      split_ifs at hfits ⊢ <;> exact hfits
    rw [Nat.mod_eq_of_lt hsum]
    split_ifs <;> exact (Nat.zero_add _).symm
  | polls =>
    rw [ring_process, r.ring.overflow_drain]
    exact (Nat.zero_add _).symm
  | asks => rfl

/-- The calls from now on leave room in the count, which stands at `pending`. -/
structure FitsFrom (r : Receiver C α) (pending : Nat) (calls : List (Call C α)) : Prop where
  now : ∀ stretch after, calls = stretch ++ after → Call.takeOverflow ∉ stretch →
    pending + (r.refused stretch).length < UInt32.size
  later : r.CountFits calls

theorem CountFits.tail (h : r.CountFits (c :: calls)) : (r.call c).2.CountFits calls := by
  intro before stretch after hsplit hquiet
  exact h (c :: before) stretch after (congrArg (c :: ·) hsplit) hquiet

theorem CountFits.fitsFrom (h : r.CountFits calls) : r.FitsFrom 0 calls where
  now := by
    intro stretch after hsplit hquiet
    rw [Nat.zero_add]
    exact h [] stretch after hsplit hquiet
  later := h

theorem FitsFrom.tail {pending : Nat} (h : r.FitsFrom pending (c :: calls))
    (hc : c ≠ .takeOverflow) : (r.call c).2.FitsFrom (pending + (r.refusedBy c).length) calls where
  now := by
    intro stretch after hsplit hquiet
    have hfits := h.now (c :: stretch) after (congrArg (c :: ·) hsplit)
      (List.not_mem_cons_of_ne_of_not_mem hc.symm hquiet)
    rw [refused_cons, List.length_append, ← Nat.add_assoc] at hfits
    exact hfits
  later := h.later.tail

theorem FitsFrom.head {pending : Nat} (h : r.FitsFrom pending (c :: calls))
    (hc : c ≠ .takeOverflow) : pending + (r.refusedBy c).length < UInt32.size := by
  have hfits := h.now [c] calls rfl (List.not_mem_cons_of_ne_of_not_mem hc.symm List.not_mem_nil)
  rw [refused_cons, List.length_append] at hfits
  exact hfits

theorem lost_call (hc : c ≠ .takeOverflow) : (r.call c).1.lost = 0 := by
  cases c with
  | takeOverflow => exact absurd rfl hc
  | _ => rfl

/-- Every refused frame was reported or is still to be reported. -/
theorem overflow_run (hcap : r.ring.capacity ≠ 0)
    (hfits : r.FitsFrom r.ring.overflow.toNat calls) :
    r.ring.overflow.toNat + (r.refused calls).length =
      r.reportedLost calls + (r.run calls).2.ring.overflow.toNat := by
  induction calls generalizing r with
  | nil => exact (Nat.zero_add _).symm
  | cons c calls ih =>
    have hcap' : (r.call c).2.ring.capacity ≠ 0 := by
      rw [capacity_call]
      exact hcap
    rw [reportedLost_cons, refused_cons, List.length_append]
    by_cases hc : c = .takeOverflow
    · subst hc
      -- the report starts a new stretch, in which nothing has been counted yet
      have hrest := ih hcap' hfits.later.tail.fitsFrom
      rw [show (r.call .takeOverflow).2.ring.overflow.toNat = 0 from rfl, Nat.zero_add] at hrest
      rw [show (r.refusedBy .takeOverflow).length = 0 from rfl, Nat.zero_add, Nat.add_assoc]
      exact congrArg (r.ring.overflow.toNat + ·) hrest
    · have hcall := overflow_call hcap (hfits.head hc)
      have hpending := hcall
      rw [lost_call hc, Nat.zero_add] at hpending
      have hrest := ih hcap' (hpending ▸ hfits.tail hc)
      rw [← Nat.add_assoc, hcall, Nat.add_assoc, Nat.add_assoc]
      exact congrArg ((r.call c).1.lost + ·) hrest

/-- A sample completes one message at most. -/
theorem length_found_le (r : Receiver C α) (calls : List (Call C α)) :
    (r.found calls).length ≤ (calls.flatMap Call.samples).length := by
  induction calls generalizing r with
  | nil => exact Nat.le_refl 0
  | cons c calls ih =>
    have hcall : (r.foundBy c).length ≤ c.samples.length := by
      cases c with
      | sample value =>
        rw [foundBy]
        split_ifs
        · rw [List.length_map]
          exact Option.length_toList_le
        · exact Nat.zero_le 1
      | _ => exact Nat.zero_le _
    rw [found_cons, List.flatMap_cons, List.length_append, List.length_append]
    exact Nat.add_le_add hcall (ih _)

/-- Fewer than 2³² samples cannot make the count run over. -/
theorem countFits_of_samples (h : (calls.flatMap Call.samples).length < UInt32.size) :
    r.CountFits calls := by
  rintro before stretch after rfl -
  have hrefused := (r.run before).2.length_found stretch
  have hfound := (r.run before).2.length_found_le stretch
  rw [List.flatMap_append, List.flatMap_append, List.length_append, List.length_append] at h
  omega

/-- Where nothing is refused nothing is lost. -/
theorem overflow_run_of_refused (hcap : r.ring.capacity ≠ 0) (hnone : r.ring.overflow = 0)
    (hall : r.refused calls = []) : (r.run calls).2.ring.overflow = 0 := by
  have hfits : r.CountFits calls := by
    rintro before stretch after rfl -
    rw [refused, List.append_assoc, collect_append, collect_append] at hall
    have hstretch := (List.append_eq_nil_iff.mp (List.append_eq_nil_iff.mp hall).2).1
    rw [refused, hstretch]
    exact Nat.zero_lt_succ _
  have hpending : r.ring.overflow.toNat = 0 := by
    rw [hnone]
    rfl
  have hrun := overflow_run hcap (hpending.symm ▸ hfits.fitsFrom)
  rw [hall, hpending, List.length_nil] at hrun
  exact UInt32.toNat_inj.mp (by rw [UInt32.toNat_zero]; omega)

/-! ## The balance -/

section New

variable {capacity : Nat} {clock : C}

/-- What a new receiver has counted: every frame that it handled held a message, valid or damaged. -/
theorem stats_genuine (capacity : Nat) (clock : C) (calls : List (Call C α)) :
    let start : Receiver C α := ofCapacity capacity clock
    let stats := (start.run calls).2.dispatcher.stats
    ∃ valid damaged, valid + damaged = (start.handled calls).length ∧
      stats.accepted = UInt64.ofNat valid ∧ stats.crcFailures = UInt64.ofNat damaged ∧
      stats.unknownKind = 0 ∧ stats.malformed = 0 := by
  intro start stats
  have hgenuine : ∀ o ∈ (start.handled calls).map Outcome.ofFrame, o.Genuine := by
    intro o ho
    obtain ⟨frame, hframe, rfl⟩ := List.mem_map.mp ho
    obtain ⟨s, hs, rfl⟩ := exists_taken_of_handled hframe
    have htracks : Tracks start [] := tracks_ofCapacity capacity clock
    exact Outcome.genuine_ofFrame s.time (htracks.length_raw_of_taken hs)
  have hof (v : Verdict) : stats.of v =
      UInt64.ofNat ((((start.handled calls).map Outcome.ofFrame).map Outcome.verdict).count v) := by
    have hzero : start.dispatcher.stats.of v = 0 := by cases v <;> rfl
    rw [show stats = _ from stats_run start calls, Stats.of_foldl_count, hzero, UInt64.zero_add]
  obtain ⟨hboth, hunknown, hmalformed⟩ := Outcome.count_of_genuine hgenuine
  rw [List.length_map] at hboth
  have hunknown' := hof .unknownKind
  have hmalformed' := hof .malformed
  rw [hunknown] at hunknown'
  rw [hmalformed] at hmalformed'
  exact ⟨_, _, hboth, hof .accepted, hof .crcFailure, hunknown', hmalformed'⟩

/-- With one listener all along, a message counts as valid when its record is handed over. -/
theorem accepted_run {listener : α} (h : ∀ c ∈ calls, c.Plain)
    (hlistener : r.dispatcher.listener = some listener) :
    (r.run calls).2.dispatcher.stats.accepted =
      r.dispatcher.stats.accepted + UInt64.ofNat (r.deliveries calls).length := by
  have hstats := congrArg (Stats.of · .accepted) (r.stats_run calls)
  rw [Stats.of_foldl_count, ← Outcome.length_filterMap_delivery? listener] at hstats
  rw [deliveries_of_plain h, hlistener]
  exact hstats

/-- The messages that were found are those whose frames were handled, wait or were lost. -/
theorem length_found_eq (h : FrameRing.Usable capacity)
    (hfits : (ofCapacity capacity clock : Receiver C α).CountFits calls) :
    let start : Receiver C α := ofCapacity capacity clock
    let final := (start.run calls).2
    (start.found calls).length = (start.handled calls).length + final.ring.drain.1.length +
      (start.reportedLost calls + final.ring.overflow.toNat) := by
  intro start final
  have hcap : start.ring.capacity ≠ 0 := by
    show (FrameRing.ofCapacity capacity).capacity ≠ 0
    rw [FrameRing.capacity_ofCapacity h]
    exact Nat.ne_of_gt (Nat.lt_trans (Nat.zero_lt_succ 1) h.1)
  have hkept : (start.taken calls).length =
      (start.handled calls).length + final.ring.drain.1.length := by
    obtain ⟨waiting, hwaiting, hconserved⟩ := conserved_run (queues_start capacity clock) calls
    rw [← hwaiting.drain.1, List.nil_append] at hconserved
    rw [← List.length_map, hconserved, List.length_append]
  have hlost : (start.refused calls).length =
      start.reportedLost calls + final.ring.overflow.toNat :=
    (Nat.zero_add _).symm.trans (overflow_run hcap hfits.fitsFrom)
  rw [start.length_found calls, hkept, hlost]

/-- **No message is lost unaccounted.** A receiver with a ring is used in any way, as a whole or in
two halves. As long as the number of lost frames is asked for before it runs over, the messages that
were found are the valid ones, the damaged ones, those that still wait, and the lost ones, whether
these were reported or not. The equation holds in the words that count, and in whole numbers for as long
as fewer frames have been handled than a word can count. Frames of no kind or of an impossible length
never occur. -/
theorem found_accounted (h : FrameRing.Usable capacity)
    (hfits : (ofCapacity capacity clock : Receiver C α).CountFits calls) :
    let start : Receiver C α := ofCapacity capacity clock
    let final := (start.run calls).2
    let stats := final.dispatcher.stats
    let waiting := final.ring.drain.1.length
    let lost := start.reportedLost calls + final.ring.overflow.toNat
    UInt64.ofNat (start.found calls).length =
        stats.accepted + stats.crcFailures + UInt64.ofNat (waiting + lost) ∧
      ((start.handled calls).length < UInt64.size →
        (start.found calls).length =
          stats.accepted.toNat + stats.crcFailures.toNat + waiting + lost) ∧
      stats.unknownKind = 0 ∧ stats.malformed = 0 := by
  intro start final stats waiting lost
  obtain ⟨valid, damaged, hboth, hvalid, hdamaged, hunknown, hmalformed⟩ :=
    stats_genuine capacity clock calls
  have hfound : (start.found calls).length = valid + damaged + (waiting + lost) := by
    rw [hboth, ← Nat.add_assoc]
    exact length_found_eq h hfits
  refine ⟨?_, ?_, hunknown, hmalformed⟩
  · rw [hfound, UInt64.ofNat_add, UInt64.ofNat_add, ← hvalid, ← hdamaged]
  · intro hfew
    rw [← hboth] at hfew
    have hvalid' : stats.accepted.toNat = valid := by
      rw [show stats.accepted = _ from hvalid]
      exact UInt64.toNat_ofNat_of_lt' (Nat.lt_of_le_of_lt (Nat.le_add_right _ _) hfew)
    have hdamaged' : stats.crcFailures.toNat = damaged := by
      rw [show stats.crcFailures = _ from hdamaged]
      exact UInt64.toNat_ofNat_of_lt' (Nat.lt_of_le_of_lt (Nat.le_add_left _ _) hfew)
    rw [hfound, hvalid', hdamaged']
    omega

/-- A ring of 24 bytes has room for one SCM only; all the same each of two is accounted for. -/
theorem found_accounted_scm :
    let samples := manchester (Scm.encode { id := 7 })
    let calls := (samples ++ samples).map Call.sample ++ [.process, .takeOverflow]
    FrameRing.Usable 24 ∧ (ofCapacity 24 {} : Receiver SteppedClock Unit).CountFits calls ∧
      (∃ s ∈ (ofCapacity 24 {} : Receiver SteppedClock Unit).found calls, s.capture.kind = .scm) ∧
      let start : Receiver SteppedClock Unit := ofCapacity 24 {}
      let final := (start.run calls).2
      let stats := final.dispatcher.stats
      let waiting := final.ring.drain.1.length
      let lost := start.reportedLost calls + final.ring.overflow.toNat
      (start.found calls).length =
          stats.accepted.toNat + stats.crcFailures.toNat + waiting + lost ∧
        stats.unknownKind = 0 ∧ stats.malformed = 0 := by
  intro samples calls
  have husable : FrameRing.Usable 24 := by decide
  have hsamples : calls.flatMap Call.samples = samples ++ samples := by
    rw [List.flatMap_append, samples_map_sample]
    exact List.append_nil _
  have hshort : (calls.flatMap Call.samples).length < UInt32.size := by
    rw [hsamples]
    decide +kernel
  have hfits : (ofCapacity 24 {} : Receiver SteppedClock Unit).CountFits calls :=
    countFits_of_samples hshort
  have hfew : ((ofCapacity 24 {} : Receiver SteppedClock Unit).handled calls).length < UInt64.size := by
    have hle := (ofCapacity 24 {} : Receiver SteppedClock Unit).length_found_le calls
    have hsize : UInt32.size ≤ UInt64.size := by decide
    rw [length_found_eq husable hfits] at hle
    omega
  obtain ⟨-, hbalance, hrest⟩ := found_accounted husable hfits
  refine ⟨husable, hfits, ?_, hbalance hfew, hrest⟩
  have hplain : ∀ c ∈ calls, c.Plain := by
    intro c hc
    rcases List.mem_append.mp hc with hsample | hlast
    · obtain ⟨value, -, rfl⟩ := List.mem_map.mp hsample
      exact Call.Plain.sample value
    · rcases List.mem_pair.mp hlast with rfl | rfl
      · exact Call.Plain.process
      · exact Call.Plain.takeOverflow
  have hne : samples ≠ [] := by decide +kernel
  have hkind : messageEnding? ([] ++ samples) = some .scm := by decide +kernel
  have htracks : Tracks (ofCapacity 24 {} : Receiver SteppedClock Unit) [] := tracks_ofCapacity 24 _
  have hheard : samples <+:
      (ofCapacity 24 {} : Receiver SteppedClock Unit).heard (calls.map Use.call) := by
    rw [heard_of_plain hplain rfl, hsamples]
    exact List.prefix_append _ _
  obtain ⟨s, hs, hends⟩ := htracks.exists_found hne hheard hkind
  exact ⟨s, hs, Option.some.inj (hends.kind_eq.symm.trans hkind)⟩

end New

end Receiver

end MeterRadio
