import Mathlib.Data.List.Basic
import MeterRadio.Frame.Verdict
import MeterRadio.Proofs.Message.Decode
import MeterRadio.Proofs.Ring.Queue
import MeterRadio.Receiver.Basic

/-!
# What a poll does

A poll handles frame by frame what waits in the ring. The working memory that all frames share does not
show in the answer, and the ring is emptied as if nobody looked at the frames (`processRounds_eq`); so
what is made of a frame is decided by its own bytes. `Verdict.ofFrame` says from the bytes how a frame
counts, and the counts of a poll are the numbers of frames with each verdict.
-/

namespace MeterRadio

open FrameRing (Op)

variable {α : Type}

/-! ## Verdicts -/

/-- The verdict that an outcome counts for. -/
def Outcome.verdict : Outcome → Verdict
  | accepted _ => .accepted
  | dropped (.message (.checksum ..)) => .crcFailure
  | dropped (.unknownKind _) => .unknownKind
  | dropped _ => .malformed

/-- The number that counts a verdict. -/
def Stats.of (s : Stats) : Verdict → UInt64
  | .malformed => s.malformed
  | .unknownKind => s.unknownKind
  | .crcFailure => s.crcFailures
  | .accepted => s.accepted

theorem Stats.of_count (s : Stats) (o : Outcome) (v : Verdict) :
    (s.count o).of v = s.of v + if o.verdict = v then 1 else 0 := by
  cases o with
  | accepted content => cases v <;> simp [count, of, Outcome.verdict]
  | dropped reason =>
    cases reason with
    | malformed len => cases v <;> simp [count, of, Outcome.verdict]
    | unknownKind tag => cases v <;> simp [count, of, Outcome.verdict]
    | message e => cases e <;> cases v <;> simp [count, of, Outcome.verdict]

/-- Every outcome counts once, in a word that may run over. -/
theorem Stats.of_foldl_count (s : Stats) (outcomes : List Outcome) (v : Verdict) :
    (outcomes.foldl count s).of v =
      s.of v + UInt64.ofNat ((outcomes.map Outcome.verdict).count v) := by
  induction outcomes generalizing s with
  | nil => exact (UInt64.add_zero _).symm
  | cons o outcomes ih =>
    have hone : (if o.verdict = v then 1 else 0 : UInt64) =
        UInt64.ofNat (if o.verdict = v then 1 else 0) := by
      split_ifs <;> rfl
    rw [List.foldl_cons, ih, of_count, List.map_cons, List.count_cons, UInt64.ofNat_add, hone]
    simp only [beq_iff_eq]
    ac_rfl

theorem FrameHeader.ofBytes?_of_le {frame : Bytes} (h : FrameHeader.size ≤ frame.length) :
    ∃ header, ofBytes? frame = some header ∧ header.tag = byteAt frame 0 ∧
      header.bitOffset = byteAt frame 5 :=
  ⟨_, if_neg (Nat.not_lt.mpr h), rfl, rfl⟩

/-- Where the payload has a possible length, the checksum decides. -/
theorem verdict_ofPayload {header : FrameHeader} {kind : Kind} {frame : Bytes}
    (hoffset : header.bitOffset = byteAt frame 5)
    (hlen : frame.length - FrameHeader.size ≤ maxPayload) :
    (Outcome.ofResult
      (FrameContent.ofPayload header kind (frame.drop FrameHeader.size))).verdict =
        Verdict.ofPayload kind frame := by
  have hsize : (Verdict.aligned frame).length = frame.length - FrameHeader.size := by
    rw [Verdict.aligned, length_realign, List.length_drop]
  rw [FrameContent.ofPayload, hoffset, ← Verdict.aligned, Verdict.ofPayload]
  by_cases hshort : frame.length - FrameHeader.size < kind.rawSize
  · rw [← hsize] at hshort
    rw [Record.decode_truncated hshort, if_pos (Or.inr (hsize ▸ hshort))]
    rfl
  · have hbounds : ¬(maxPayload < frame.length - FrameHeader.size ∨
        frame.length - FrameHeader.size < kind.rawSize) := by omega
    have hle : kind.rawSize ≤ (Verdict.aligned frame).length := by omega
    rw [if_neg hbounds, Checksum.Code.valid]
    by_cases hres : kind.code.register (covered kind (Verdict.aligned frame)) = kind.code.residual
    · obtain ⟨record, hdecode⟩ := Record.decode_ok (checkEnvelope_eq_ok_iff.mpr ⟨hle, hres⟩)
      rw [hdecode, hres, beq_self_eq_true, if_pos rfl]
      rfl
    · rw [Record.decode_damaged hle hres, beq_false_of_ne hres, if_neg Bool.false_ne_true]
      rfl

/-- A frame counts as its bytes say. -/
theorem Outcome.verdict_ofFrame (frame : Bytes) :
    (Outcome.ofFrame frame).verdict = Verdict.ofFrame frame := by
  show (Outcome.ofResult (FrameContent.ofBytes frame)).verdict = _
  rw [FrameContent.ofBytes, Verdict.ofFrame]
  by_cases hshort : frame.length < FrameHeader.size
  · have hnone : FrameHeader.ofBytes? frame = none := if_pos hshort
    rw [hnone, if_pos hshort]
    rfl
  · obtain ⟨header, hheader, htag, hoffset⟩ := FrameHeader.ofBytes?_of_le (Nat.le_of_not_lt hshort)
    rw [hheader, if_neg hshort, ← htag]
    dsimp only
    rw [FrameHeader.kind?]
    cases Kind.ofTag? header.tag with
    | none => rfl
    | some kind =>
      dsimp only
      rw [List.length_drop]
      by_cases hlong : maxPayload < frame.length - FrameHeader.size
      · rw [if_pos hlong, Verdict.ofPayload, if_pos (Or.inl hlong)]
        rfl
      · rw [if_neg hlong]
        exact verdict_ofPayload hoffset (Nat.le_of_not_lt hlong)

/-! ## Rounds -/

/-- What a poll answers that finds these frames. -/
def Drained.ofFrames (listener : Option α) (frames : List Bytes) : Drained α where
  deliveries := (frames.map Outcome.ofFrame).filterMap fun outcome =>
    listener.bind fun listener => outcome.delivery? listener
  log := (frames.map Outcome.ofFrame).map Outcome.logLine

theorem Drained.ofFrames_cons (listener : Option α) (frame : Bytes) (frames : List Bytes) :
    ofFrames listener (frame :: frames) =
      (ofFrames listener frames).cons listener (Outcome.ofFrame frame) := by
  simp only [ofFrames, cons, List.map_cons, List.filterMap_cons]
  cases listener.bind fun listener => (Outcome.ofFrame frame).delivery? listener <;> rfl

namespace Dispatcher

variable (d : Dispatcher α) (ring : FrameRing)

theorem handle_eq (frame : Bytes) : ∃ scratch, d.handle frame =
    (Outcome.ofFrame frame,
      { d with stats := d.stats.count (Outcome.ofFrame frame), scratch }) := by
  have hresult := FrameContent.unpack_fst d.scratch frame
  rw [handle]
  generalize FrameContent.unpack d.scratch frame = unpacked at hresult
  obtain ⟨result, scratch⟩ := unpacked
  obtain rfl : result = FrameContent.ofBytes frame := hresult
  exact ⟨scratch, rfl⟩

/-- The frames are taken out of the ring as if nobody looked at them, and what each one adds to the
answer and to the counts is decided by its own bytes. -/
theorem processRounds_eq (rounds : Nat) : ∃ scratch, d.processRounds ring rounds =
    (Drained.ofFrames d.listener (ring.takeFrames rounds).1,
      { d with
        stats := ((ring.takeFrames rounds).1.map Outcome.ofFrame).foldl Stats.count d.stats
        scratch },
      (ring.takeFrames rounds).2) := by
  induction rounds generalizing d ring with
  | zero => exact ⟨d.scratch, rfl⟩
  | succ rounds ih =>
    rw [processRounds, FrameRing.takeFrames]
    generalize ring.peek = peeked
    obtain ⟨_ | frame, ring⟩ := peeked
    · exact ⟨d.scratch, rfl⟩
    · -- the working memory that the first frame leaves is what the others find
      obtain ⟨left, hfirst⟩ := d.handle_eq frame
      obtain ⟨scratch, hrest⟩ := ih (d.handle frame).2 (ring.pop none).2
      refine ⟨scratch, ?_⟩
      dsimp only
      rw [hrest, hfirst, Drained.ofFrames_cons]
      rfl

theorem process_eq : ∃ scratch, d.process ring =
    (Drained.ofFrames d.listener ring.drain.1,
      { d with
        stats := (ring.drain.1.map Outcome.ofFrame).foldl Stats.count d.stats
        scratch },
      ring.drain.2) :=
  d.processRounds_eq ring ring.capacity

theorem drained_process : (d.process ring).1 = Drained.ofFrames d.listener ring.drain.1 := by
  obtain ⟨scratch, h⟩ := d.process_eq ring
  rw [h]

theorem stats_process : (d.process ring).2.1.stats =
    (ring.drain.1.map Outcome.ofFrame).foldl Stats.count d.stats := by
  obtain ⟨scratch, h⟩ := d.process_eq ring
  rw [h]

theorem listener_process : (d.process ring).2.1.listener = d.listener := by
  obtain ⟨scratch, h⟩ := d.process_eq ring
  rw [h]

theorem ring_process : (d.process ring).2.2 = ring.drain.2 := by
  obtain ⟨scratch, h⟩ := d.process_eq ring
  rw [h]

end Dispatcher

/-! ## Records -/

/-- The listener gets what the frame holds as a message of the kind that its tag stands for. -/
structure Delivery.Holds (delivery : Delivery α) (listener : α) (frame : Bytes) : Prop where
  listener_eq : delivery.listener = listener
  kind_eq : delivery.kind = delivery.record.kind
  content : ∃ kind, Kind.ofTag? (byteAt frame 0) = some kind ∧
    Record.decode kind (Verdict.aligned frame) = .ok delivery.record ∧
    delivery.raw = (Verdict.aligned frame).take kind.rawSize

theorem FrameContent.ofPayload_eq_ok {header : FrameHeader} {kind : Kind} {payload : Bytes}
    {content : FrameContent} (h : ofPayload header kind payload = .ok content) :
    Record.decode kind (realign payload header.bitOffset.toNat) = .ok content.record ∧
      content.raw = (realign payload header.bitOffset.toNat).take kind.rawSize := by
  rw [ofPayload] at h
  cases hdecode : Record.decode kind (realign payload header.bitOffset.toNat) with
  | error e =>
    rw [hdecode] at h
    cases h
  | ok record =>
    rw [hdecode] at h
    cases h
    exact ⟨rfl, rfl⟩

theorem FrameContent.ofBytes_eq_ok {frame : Bytes} {content : FrameContent}
    (h : ofBytes frame = .ok content) : ∃ kind, Kind.ofTag? (byteAt frame 0) = some kind ∧
      Record.decode kind (Verdict.aligned frame) = .ok content.record ∧
      content.raw = (Verdict.aligned frame).take kind.rawSize := by
  rw [ofBytes] at h
  by_cases hshort : frame.length < FrameHeader.size
  · have hnone : FrameHeader.ofBytes? frame = none := if_pos hshort
    rw [hnone] at h
    cases h
  · obtain ⟨header, hheader, htag, hoffset⟩ := FrameHeader.ofBytes?_of_le (Nat.le_of_not_lt hshort)
    rw [hheader] at h
    dsimp only at h
    rw [FrameHeader.kind?, htag] at h
    cases hkind : Kind.ofTag? (byteAt frame 0) with
    | none =>
      rw [hkind] at h
      cases h
    | some kind =>
      rw [hkind] at h
      dsimp only at h
      split_ifs at h
      obtain ⟨hdecode, hraw⟩ := ofPayload_eq_ok h
      rw [hoffset] at hdecode hraw
      exact ⟨kind, rfl, hdecode, hraw⟩

/-- A listener gets one record for each frame that is accepted, and nothing for the others. -/
theorem Outcome.delivery?_ofFrame (listener : α) (frame : Bytes) :
    if Verdict.ofFrame frame = .accepted then
      ∃ delivery, (ofFrame frame).delivery? listener = some delivery ∧ delivery.Holds listener frame
    else (ofFrame frame).delivery? listener = none := by
  rw [← verdict_ofFrame, ofFrame]
  cases hframe : FrameContent.ofBytes frame with
  | ok content => exact ⟨_, rfl, rfl, rfl, FrameContent.ofBytes_eq_ok hframe⟩
  | error reason =>
    have hdropped : (dropped reason).verdict ≠ .accepted := by
      cases reason with
      | malformed len => exact Verdict.noConfusion
      | unknownKind tag => exact Verdict.noConfusion
      | message e => cases e <;> exact Verdict.noConfusion
    exact (if_neg hdropped).mpr rfl

theorem Drained.forall₂_ofFrames (listener : α) (frames : List Bytes) :
    List.Forall₂ (fun frame delivery => delivery.Holds listener frame)
      (frames.filter (Verdict.ofFrame · = .accepted))
      (ofFrames (some listener) frames).deliveries := by
  induction frames with
  | nil => exact List.Forall₂.nil
  | cons frame frames ih =>
    have hframe := Outcome.delivery?_ofFrame listener frame
    rw [ofFrames_cons]
    by_cases haccepted : Verdict.ofFrame frame = .accepted
    · rw [if_pos haccepted] at hframe
      obtain ⟨delivery, hdelivery, hholds⟩ := hframe
      rw [List.filter_cons_of_pos (by simpa using haccepted), cons, Option.bind_some, hdelivery]
      exact List.Forall₂.cons hholds ih
    · rw [if_neg haccepted] at hframe
      rw [List.filter_cons_of_neg (by simpa using haccepted), cons, Option.bind_some, hframe]
      exact ih

/-! ## Emptying a ring -/

namespace FrameRing

variable {ring : FrameRing} {q : FrameQueue}

/-- Taking out frames is looking at them and removing them. -/
theorem exists_ops_takeFrames (ring : FrameRing) (rounds : Nat) :
    ∃ ops, (∀ op ∈ ops, op = .peek ∨ op = .pop none) ∧
      (ring.takeFrames rounds).2 = (ring.run ops).2 := by
  induction rounds generalizing ring with
  | zero => exact ⟨[], fun op hop => absurd hop List.not_mem_nil, rfl⟩
  | succ rounds ih =>
    rw [takeFrames]
    cases hpeek : ring.peek with
    | mk found left =>
      have hstep (ops : List Op) : (ring.run (.peek :: ops)).2 = (left.run ops).2 := by
        show (ring.peek.2.run ops).2 = (left.run ops).2
        rw [hpeek]
      cases found with
      | none => exact ⟨[.peek], fun op hop => Or.inl (List.mem_singleton.mp hop), (hstep []).symm⟩
      | some frame =>
        obtain ⟨ops, hops, hrun⟩ := ih (left.pop none).2
        refine ⟨.peek :: .pop none :: ops, ?_, ?_⟩
        · intro op hop
          rcases List.mem_cons.mp hop with rfl | hop
          · exact Or.inl rfl
          · rcases List.mem_cons.mp hop with rfl | hop
            · exact Or.inr rfl
            · exact hops op hop
        · rw [hstep]
          exact hrun

/-- An empty ring is left as it is. -/
theorem Models.peek_of_empty (h : Models ring q) (hq : q.frames = []) : ring.peek = (none, ring) := by
  have hholds := h.holds
  rw [hq] at hholds
  exact hholds.peek_nil

end FrameRing

namespace Dispatcher

/-- Once the ring is empty, further rounds do nothing. -/
theorem processRounds_of_le {d : Dispatcher α} {ring : FrameRing} {q : FrameQueue} {rounds : Nat}
    (h : ring.Models q) (hle : q.frames.length ≤ rounds) :
    d.processRounds ring rounds = d.processRounds ring q.frames.length := by
  induction rounds generalizing d ring q with
  | zero => rw [Nat.le_zero.mp hle]
  | succ rounds ih =>
    cases hq : q.frames with
    | nil =>
      rw [processRounds, h.peek_of_empty hq]
      rfl
    | cons frame frames =>
      obtain ⟨hpeek, hmodels⟩ := h.peek
      obtain ⟨-, hpop⟩ := hmodels.pop none
      rw [hq] at hpeek hle
      rw [FrameQueue.pop, hq] at hpop
      rw [List.length_cons, processRounds, processRounds]
      rw [show ring.peek = (some frame, ring.peek.2) from Prod.ext hpeek rfl]
      dsimp only
      rw [ih hpop (Nat.le_of_succ_le_succ hle)]

/-- What a poll does when these frames wait in the ring. -/
structure Polls (d : Dispatcher α) (ring : FrameRing) (frames : List Bytes) : Prop where
  /-- Nothing is left to look at. -/
  empty : (d.process ring).2.2.isEmpty = true ∧ (d.process ring).2.2.peek.1 = none
  /-- One round for each frame is enough. -/
  rounds : ∀ rounds, frames.length ≤ rounds → d.processRounds ring rounds = d.process ring
  /-- The ring is only looked at and taken from. -/
  ops : ∃ ops, (∀ op ∈ ops, op = .peek ∨ op = .pop none) ∧
    (d.process ring).2.2 = (ring.run ops).2
  /-- Every frame is handled once, in order. -/
  log : (d.process ring).1.log = frames.map fun frame => (Outcome.ofFrame frame).logLine
  /-- Every frame counts for its verdict and for nothing else, in words that may run over. -/
  stats : ∀ v, (d.process ring).2.1.stats.of v =
    d.stats.of v + UInt64.ofNat ((frames.map Verdict.ofFrame).count v)
  /-- A listener gets the records of the accepted frames, in order. -/
  deliveries : match d.listener with
    | none => (d.process ring).1.deliveries = []
    | some listener => List.Forall₂ (fun frame delivery => delivery.Holds listener frame)
        (frames.filter (Verdict.ofFrame · = .accepted)) (d.process ring).1.deliveries
  /-- What was decoded before leaves no trace. -/
  scratch : ∀ scratch : Scratch, ({ d with scratch }.process ring).1 = (d.process ring).1
  /-- A listener changes none of the counts. -/
  listener : ∀ listener : Option α,
    ({ d with listener }.process ring).2.1.stats = (d.process ring).2.1.stats

theorem polls_of_models {ring : FrameRing} {q : FrameQueue} (h : ring.Models q) (d : Dispatcher α) :
    d.Polls ring q.frames := by
  obtain ⟨hframes, hmodels⟩ := h.drain
  have hring := d.ring_process ring
  have hdrained := d.drained_process ring
  have hstats := d.stats_process ring
  rw [hframes] at hdrained hstats
  refine
    { empty := ?_
      rounds := ?_
      ops := ?_
      log := ?_
      stats := ?_
      deliveries := ?_
      scratch := ?_
      listener := ?_ }
  · rw [hring, hmodels.isEmpty, hmodels.peek.1]
    exact ⟨rfl, rfl⟩
  · intro rounds hle
    rw [process, processRounds_of_le h hle, processRounds_of_le h h.holds.length_le]
  · obtain ⟨ops, hops, hrun⟩ := ring.exists_ops_takeFrames ring.capacity
    exact ⟨ops, hops, hring.trans hrun⟩
  · rw [hdrained, Drained.ofFrames, List.map_map]
    rfl
  · intro v
    rw [hstats, Stats.of_foldl_count, List.map_map]
    simp only [Function.comp_def, Outcome.verdict_ofFrame]
  · rw [hdrained]
    cases d.listener with
    | none => exact List.filterMap_none _
    | some listener => exact Drained.forall₂_ofFrames listener q.frames
  · intro scratch
    rw [drained_process, drained_process]
  · intro listener
    rw [stats_process, stats_process]

/-- **A poll empties the ring, once and in order.** Over usable storage, whatever was done with the ring
before, the frames that it took and that were not removed are handled by any dispatcher, and each of
them counts as its own bytes say. -/
theorem polls_ofStorage {storage : Bytes} (h : FrameRing.Usable storage.length) (ops : List Op)
    (d : Dispatcher α) :
    d.Polls ((FrameRing.ofStorage storage).run ops).2
      (FrameQueue.empty.run ((FrameRing.ofStorage storage).observe ops)).2.frames :=
  polls_of_models ((FrameRing.models_ofStorage h).run ops).2 d

/-- A frame of three bytes, one of an unknown kind, an SCM and a damaged SCM count for one number each,
in whatever the dispatcher has left in its memory. The number of valid messages runs over. -/
theorem polls_ofStorage_four :
    let storage : Bytes := List.replicate 90 0xEE
    let header := (FrameHeader.ofKind .scm 0 0).toBytes
    let message := Scm.encode { id := 7 }
    let ops : List Op := [.push [1, 2, 3], .push [9, 0, 0, 0, 0, 0], .push (header ++ message),
      .push (header ++ message.set 5 0xFF)]
    let d : Dispatcher Unit :=
      { listener := some ()
        stats := { accepted := 0xFFFFFFFFFFFFFFFF, malformed := 6 }
        scratch := Vector.replicate maxPayload 0xEE }
    let ring := ((FrameRing.ofStorage storage).run ops).2
    FrameRing.Usable storage.length ∧
      (d.process ring).2.1.stats.of .malformed = 7 ∧ (d.process ring).2.1.stats.of .unknownKind = 1 ∧
      (d.process ring).2.1.stats.of .crcFailure = 1 ∧ (d.process ring).2.1.stats.of .accepted = 0 := by
  intro storage header message ops d ring
  have husable : FrameRing.Usable storage.length := by decide
  have hverdicts : (FrameQueue.empty.run ((FrameRing.ofStorage storage).observe ops)).2.frames.map
      Verdict.ofFrame = [.malformed, .unknownKind, .accepted, .crcFailure] := by
    decide +kernel
  have h : d.Polls ring _ := polls_ofStorage husable ops d
  have hstats (v : Verdict) : (d.process ring).2.1.stats.of v = d.stats.of v + 1 := by
    rw [h.stats, hverdicts]
    cases v <;> rfl
  have hover : (0xFFFFFFFFFFFFFFFF : UInt64) + 1 = 0 := by decide
  exact ⟨husable, hstats .malformed, hstats .unknownKind, hstats .crcFailure,
    (hstats .accepted).trans hover⟩

end Dispatcher

end MeterRadio
