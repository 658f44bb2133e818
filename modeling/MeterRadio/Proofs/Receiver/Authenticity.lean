import MeterRadio.Proofs.Receiver.Schedule

/-!
# What reaches a listener was on the line

A record is handed over together with the bytes it was read from. Those bytes are a whole message of
the kind of the record, with its preamble and a checksum that holds, and they were sent: they are the
latest bits in phase with some sample that was heard (`Delivery.Authentic`). Decoding does not look at
preambles, so this rests on the whole way from the line through the ring to the listener
(`authentic_of_mem_deliveries`).
-/

namespace MeterRadio

open Line

variable {kind : Kind} {raw : Bytes}

/-! ## Messages that are decoded -/

/-- A number that the message starts with is read back from its first bytes. -/
theorem beField_of_bits_prefix {n value : Nat} (h : Bytes.bits (beBytes n value) <+: Bytes.bits raw) :
    beField raw 0 n = value % 256 ^ n := by
  obtain ⟨rest, rfl⟩ := Bytes.prefix_of_bits_prefix h
  rw [beField, slice, List.drop_zero, List.take_left' (length_beBytes n value), beNat_beBytes]

/-- Both IDM layouts look the same from outside. -/
theorem IsMessage.idm18 (h : IsMessage .idm raw) : IsMessage .idm18 raw where
  length_eq := h.length_eq
  envelope := by
    have hchecks := checkEnvelope_eq_ok_iff.mp h.envelope
    exact checkEnvelope_eq_ok_iff.mpr hchecks
  starts := h.starts

/-- The record was read from the bytes, which are a message of its kind. -/
structure ReadFrom (record : Record) (raw : Bytes) : Prop where
  message : IsMessage record.kind raw
  decode_eq : Record.decode record.kind raw = .ok record
  frameSync_eq : ∀ m, record = .scmPlus m → m.frameSync = scmPlusSync
  preamble_eq : ∀ m, record = .idm m → m.preamble = idmPreamble

theorem IsMessage.readFrom {record : Record} (h : IsMessage kind raw) (hkind : kind ≠ .idm18)
    (hdecode : Record.decode kind raw = .ok record) : ReadFrom record raw := by
  cases kind with
  | idm18 => exact absurd rfl hkind
  | scm =>
    obtain ⟨m, -, rfl⟩ := map_eq_ok hdecode
    exact ⟨h, hdecode, fun m' hm' => Record.noConfusion hm', fun m' hm' => Record.noConfusion hm'⟩
  | scmPlus =>
    obtain ⟨m, hm, rfl⟩ := map_eq_ok hdecode
    refine ⟨h, hdecode, ?_, fun m' hm' => Record.noConfusion hm'⟩
    rintro m' hm'
    obtain rfl := Record.scmPlus.inj hm'
    rw [ScmPlus.frameSync_of_decode hm, beField_of_bits_prefix h.starts]
    rfl
  | idm =>
    obtain ⟨m, hm, rfl⟩ := map_eq_ok hdecode
    have hpreamble : ∀ m', Record.idm m = .idm m' → m'.preamble = idmPreamble := by
      rintro m' hm'
      obtain rfl := Record.idm.inj hm'
      rw [Idm.preamble_of_decode hm, beField_of_bits_prefix h.starts]
      rfl
    -- which of the two kinds the record is of is decided by its payload, not by the preamble
    have hlayout : m.kind = .idm ∨ m.kind = .idm18 := by
      rw [Idm.kind]
      cases m.payload with
      | standard data => exact Or.inl rfl
      | x18 data => exact Or.inr rfl
    have hsync : ∀ m', Record.idm m = .scmPlus m' → m'.frameSync = scmPlusSync :=
      fun m' hm' => Record.noConfusion hm'
    rcases hlayout with hk | hk
    · have hkind : (Record.idm m).kind = .idm := hk
      exact ⟨by rw [hkind]; exact h, by rw [hkind]; exact hdecode, hsync, hpreamble⟩
    · have hkind : (Record.idm m).kind = .idm18 := hk
      exact ⟨by rw [hkind]; exact h.idm18, by rw [hkind]; exact hdecode, hsync, hpreamble⟩

/-- A message that is found has the size and the preamble of its kind. -/
theorem Line.Capture.EndsAt.isMessage {c : Capture} {samples : List Bool} (h : c.EndsAt samples)
    (hchecks : checkEnvelope c.kind c.message = .ok ()) : IsMessage c.kind c.message where
  length_eq := by
    rw [Capture.message, List.length_take, length_realign, h.length_raw]
    omega
  envelope := hchecks
  starts := by
    rw [h.bits_message]
    exact (starts_of_messageEnding? h.kind_eq).1

/-! ## Deliveries -/

/-- The listener got a record of the kind it says, with the bytes that the record was read from, and
these bytes are the latest bits in phase with one of the samples. -/
structure Delivery.Authentic {α : Type} (d : Delivery α) (samples : List Bool) : Prop where
  kind_eq : d.kind = d.record.kind
  readFrom : ReadFrom d.record d.raw
  sent : ∃ now, now <+: samples ∧ now ≠ [] ∧
    Bytes.bits d.raw = lastBits now (8 * d.kind.rawSize)

namespace Receiver

variable {C α : Type} [Clock C] {calls : List (Call C α)} {d : Delivery α}

/-- **Listeners get what was on the line and nothing else.** However a receiver is used, whatever
size its ring has, every record that it hands over is authentic. -/
theorem authentic_of_mem_deliveries {capacity : Nat} {clock : C}
    (h : d ∈ (ofCapacity capacity clock : Receiver C α).deliveries calls) :
    d.Authentic ((ofCapacity capacity clock : Receiver C α).heard (calls.map Use.call)) := by
  -- back from the listener to the line: handled, taken, found, heard
  obtain ⟨frame, hframe, listener, hd⟩ := exists_handled_of_delivery h
  obtain ⟨s, hs, rfl⟩ := exists_taken_of_handled hframe
  obtain ⟨now, hnow, hends⟩ := (tracks_ofCapacity capacity clock).exists_endsAt
    ((taken_sublist_found _ calls).subset hs)
  rw [Stamped.frame, Outcome.ofFrame_frame s.time hends.length_raw] at hd
  cases hdecode : Record.decode s.capture.kind s.capture.message with
  | error e =>
    rw [hdecode] at hd
    cases hd
  | ok record =>
    rw [hdecode] at hd
    obtain rfl := Option.some.inj hd
    have hmessage := hends.isMessage (Record.checkEnvelope_of_decode hdecode)
    have hread := hmessage.readFrom (starts_of_messageEnding? hends.kind_eq).2 hdecode
    have hsize : record.kind.rawSize = s.capture.kind.rawSize :=
      hread.message.length_eq.symm.trans hmessage.length_eq
    refine ⟨rfl, hread, now, hnow, hends.ne_nil, ?_⟩
    rw [hsize]
    exact hends.bits_message

/-- An SCM message reaches a listener that was registered before. -/
theorem authentic_of_mem_deliveries_scm :
    let raw := Scm.encode { id := 7 }
    let calls := .register () :: polled ((manchester raw).map fun value => [value])
    let d : Delivery Unit :=
      { listener := (), record := .scm (Scm.fields raw), kind := .scm, raw }
    d ∈ (ofCapacity 512 {} : Receiver SteppedClock Unit).deliveries calls ∧
      d.Authentic ((ofCapacity 512 {} : Receiver SteppedClock Unit).heard (calls.map Use.call)) := by
  intro raw calls d
  have hd : d ∈ (ofCapacity 512 {} : Receiver SteppedClock Unit).deliveries calls := by
    have hmessage : IsMessage .scm raw := Scm.isMessage_encode { id := 7 }
    have hkind : messageEnding? (manchester raw) = some .scm := by decide +kernel
    have hdecode : Record.decode .scm raw = .ok (.scm (Scm.fields raw)) := by
      rw [Record.decode, Scm.decode, hmessage.envelope]
      rfl
    rw [deliveries_register]
    exact mem_deliveries_of_message (by decide) (by decide) hmessage hkind hdecode
  exact ⟨hd, authentic_of_mem_deliveries hd⟩

end Receiver

end MeterRadio
