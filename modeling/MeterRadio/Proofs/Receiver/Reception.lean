import MeterRadio.Proofs.Frame
import MeterRadio.Proofs.Message.Encode
import MeterRadio.Proofs.Receiver.Run

/-!
# Reception

A message that is sent to a receiver arrives, whatever the receiver has gone through before. The last
sample of the message completes it, the frame that is queued then decodes to the record that the
bytes stand for, and a listener gets it as the latest one (`exists_reception`).

Two things can come between. What was on the line before can make the message look like the end of a
longer one, whose preamble is looked for first (`Preempted`), and the ring can be full.
-/

namespace MeterRadio

open Line

/-- The latest frame is the last one a listener hears of. -/
theorem Dispatcher.getLast?_process {α : Type} {d : Dispatcher α} {ring : FrameRing}
    {frames : List Bytes} {frame : Bytes} {content : FrameContent} {listener : α}
    (hlistener : d.listener = some listener) (hdrain : ring.drain.1 = frames ++ [frame])
    (hframe : FrameContent.ofBytes frame = .ok content) :
    (d.process ring).1.deliveries.getLast? =
      some { listener, record := content.record, kind := content.record.kind, raw := content.raw } := by
  have hdeliveries : (d.process ring).1.deliveries =
      (ring.drain.1.map Outcome.ofFrame).filterMap (Outcome.delivery? listener) := by
    rw [drained_process, hlistener]
    rfl
  have houtcome : Outcome.ofFrame frame = .accepted content := by rw [Outcome.ofFrame, hframe]
  rw [hdeliveries, hdrain, List.map_append, List.filterMap_append, List.map_singleton, houtcome]
  exact List.getLast?_concat

/-! ## A message on the line -/

theorem IsMessage.starts_manchester {kind : Kind} {raw : Bytes} (h : IsMessage kind raw)
    (past : List Bool) : Starts kind (past ++ manchester raw) := by
  rw [Starts, ← h.length_eq, lastBits_manchester]
  exact h.starts

theorem IsMessage.manchester_ne_nil {kind : Kind} {raw : Bytes} (h : IsMessage kind raw) :
    manchester raw ≠ [] := by
  have hsize := kind.le_rawSize
  have hlen := length_manchester raw
  rw [h.length_eq] at hlen
  intro hnil
  rw [hnil, List.length_nil] at hlen
  omega

theorem Record.sentAs_ne (m : Record) : m.sentAs ≠ .idm18 := by
  cases m <;> exact Kind.noConfusion

/-! ## From the line to a listener -/

namespace Receiver

variable {C α : Type} [Clock C] {r : Receiver C α} {past init : List Bool} {last : Bool}

/-- The last sample of a message completes what the history says. A capture of the right kind holds
the bytes that were sent. -/
theorem Tracks.feed_message {kind : Kind} {raw : Bytes} (h : Tracks r past)
    (henabled : r.sampler.enabled = true) (hmessage : IsMessage kind raw)
    (hsplit : manchester raw = init ++ [last]) :
    ((r.feedAll init).sampler.detector.feed last).2.map Capture.kind =
        messageEnding? (past ++ manchester raw) ∧
      ∀ c ∈ ((r.feedAll init).sampler.detector.feed last).2, c.raw.length = c.kind.rawSize + 1 ∧
        (c.kind = kind → (realign c.raw c.bitOffset.toNat).take c.kind.rawSize = raw) := by
  obtain ⟨hkind, hcapture⟩ := (h.feedAll henabled init).1.detector.feed_snd last
  rw [List.append_assoc, ← hsplit] at hkind hcapture
  refine ⟨hkind, fun c hc => ?_⟩
  obtain ⟨-, hlen, hbits⟩ := hcapture c hc
  refine ⟨hlen, fun hck => Bytes.bits_inj ?_⟩
  rw [hbits, hck, ← hmessage.length_eq, lastBits_manchester]

/-- The frame of a capture for which there is room goes behind all others. -/
theorem Tracks.drain_feedAll {c : Capture} (h : Tracks r past) (henabled : r.sampler.enabled = true)
    (hc : c ∈ ((r.feedAll init).sampler.detector.feed last).2)
    (hroom : FrameHeader.size + c.raw.length ≤ (r.feedAll init).ring.freeSpace) :
    (r.feedAll (init ++ [last])).ring.drain.1 = (r.feedAll init).ring.drain.1 ++
      [c.frame (Clock.read (r.feedAll init).sampler.clock).1] := by
  obtain ⟨hbefore, hstill⟩ := h.feedAll henabled init
  have hring : (r.feedAll (init ++ [last])).ring = ((r.feedAll init).ring.push
      (c.frame (Clock.read (r.feedAll init).sampler.clock).1)).2 := by
    rw [feedAll_append_singleton]
    exact congrArg Prod.snd (Sampler.feed_of_some hstill hc)
  have hlen := c.length_frame (Clock.read (r.feedAll init).sampler.clock).1
  have hsize : FrameHeader.size = 6 := rfl
  rw [hring]
  refine hbefore.ring.drain_push (List.length_pos_iff.mp ?_) ?_
  · omega
  · omega

/-- **A message arrives after any history.** An enabled receiver that was used in any way is fed the
samples of an encoded record. Unless another message is found in its place, the last sample completes
a message of the right kind. If it does and the ring has room for it, its frame is queued behind all
others, and the latest record that a listener gets is the one that the sent bytes stand for. -/
theorem exists_reception {capacity : Nat} {clock : C} {uses : List (Use C α)}
    (henabled : ((ofCapacity capacity clock : Receiver C α).useAll uses).sampler.enabled = true)
    (m : Record) :
    ∃ raw init last, m.encode = .ok raw ∧ manchester raw = init ++ [last] ∧
      let r := (ofCapacity capacity clock : Receiver C α).useAll uses
      let samples := (ofCapacity capacity clock : Receiver C α).heard uses ++ manchester raw
      let before := r.feedAll init
      let after := r.feedAll (manchester raw)
      let found := (before.sampler.detector.feed last).2
      (¬Preempted m.sentAs samples → found.map Capture.kind = some m.sentAs) ∧
      ∀ c ∈ found, c.kind = m.sentAs →
        FrameHeader.size + m.sentAs.rawSize + 1 ≤ before.ring.freeSpace →
        after.ring.drain.1 =
            before.ring.drain.1 ++ [c.frame (Clock.read before.sampler.clock).1] ∧
          ∃ record, Record.decode m.sentAs raw = .ok record ∧
            ∀ (d : Dispatcher α) (listener : α), d.listener = some listener →
              ({ after with dispatcher := d } : Receiver C α).process.1.deliveries.getLast? =
                some { listener, record, kind := record.kind, raw } := by
  obtain ⟨raw, hencode, hmessage⟩ := m.isMessage_encode
  obtain ⟨init, last, hsplit⟩ : ∃ init last, manchester raw = init ++ [last] :=
    ⟨_, _, (List.dropLast_concat_getLast hmessage.manchester_ne_nil).symm⟩
  have htracks := (tracks_ofCapacity capacity clock).useAll uses
  rw [List.nil_append] at htracks
  obtain ⟨hkind, hcapture⟩ := htracks.feed_message henabled hmessage hsplit
  refine ⟨raw, init, last, hencode, hsplit, fun hfree => ?_, fun c hc hck hroom => ?_⟩
  · rw [hkind]
    exact messageEnding?_of_starts m.sentAs_ne (hmessage.starts_manchester _) hfree
  · obtain ⟨hlen, hraw⟩ := hcapture c hc
    have hdrain := htracks.drain_feedAll henabled hc (by rw [hlen, hck]; exact hroom)
    rw [← hsplit] at hdrain
    obtain ⟨record, hdecode⟩ := Record.decode_ok hmessage.envelope
    refine ⟨hdrain, record, hdecode, fun d listener hlistener => ?_⟩
    rw [← hck] at hdecode
    exact Dispatcher.getLast?_process hlistener hdrain
      (FrameContent.ofBytes_frame_ok _ hlen (hraw hck) hdecode)

/-- An SCM message is found after an odd number of samples, too. -/
theorem exists_reception_scm :
    let r := (ofCapacity 512 ({} : SteppedClock) : Receiver SteppedClock Unit).useAll
      [.call (.sample true), .ring (.push [1, 2, 3]), .call .process]
    r.sampler.enabled = true ∧
      ∃ init last, manchester (Scm.encode { id := 7 }) = init ++ [last] ∧
        ((r.feedAll init).sampler.detector.feed last).2.map Capture.kind = some .scm := by
  have henabled : ((ofCapacity 512 ({} : SteppedClock) : Receiver SteppedClock Unit).useAll
      [.call (.sample true), .ring (.push [1, 2, 3]), .call .process]).sampler.enabled = true := by
    decide +kernel
  obtain ⟨raw, init, last, hencode, hsplit, hfound, -⟩ :=
    exists_reception henabled (.scm { id := 7 })
  obtain rfl : Scm.encode { id := 7 } = raw := Except.ok.inj hencode
  have hfree : ¬(Starts .idm ([true] ++ manchester (Scm.encode { id := 7 })) ∨
      Starts .scmPlus ([true] ++ manchester (Scm.encode { id := 7 }))) := by
    decide +kernel
  exact ⟨henabled, init, last, hsplit, hfound hfree⟩

end Receiver

end MeterRadio
