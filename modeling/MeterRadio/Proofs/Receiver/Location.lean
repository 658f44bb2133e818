import MeterRadio.Proofs.Line.LeadIn
import MeterRadio.Proofs.Line.Spacing
import MeterRadio.Proofs.Receiver.Captures
import MeterRadio.Proofs.Receiver.Reception

/-!
# Where a message is found

A message is sent behind a lead-in to a receiver that has heard nothing before. It is found with its last
sample, and nothing that is as long is found before (`exists_locates`). What is found before is
shorter: a detector looks for preambles at every bit and does not skip the bits of a message, so that a
message may hold others.

How many it can hold is a matter of how close they can be. The shorter messages hold at most 14
(`Locates.length_early_le`).
-/

namespace MeterRadio

open Line

variable {kind : Kind} {raw : Bytes} {now : List Bool} {stray : Bool} {zeros : Nat}

/-! ## On the line -/

namespace Line

variable {other : Kind}

theorem rawSize_lt_of_messageEnding? (hmessage : IsMessage kind raw)
    (hnow : now <+: leadIn stray zeros ++ manchester raw)
    (hne : now ≠ leadIn stray zeros ++ manchester raw)
    (hfound : messageEnding? now = some other) : other.rawSize < kind.rawSize := by
  by_contra hle
  exact not_starts_of_prefix hmessage hnow (Nat.le_of_not_lt hle) (fun h => absurd h hne)
    (starts_of_messageEnding? hfound).1

theorem messageEnding?_message (hmessage : IsMessage kind raw) (hkind : kind ≠ .idm18) (stray : Bool)
    (zeros : Nat) : messageEnding? (leadIn stray zeros ++ manchester raw) = some kind := by
  have hlonger {other : Kind} (hlt : kind.rawSize < other.rawSize) :
      ¬Starts other (leadIn stray zeros ++ manchester raw) :=
    not_starts_of_prefix hmessage List.prefix_rfl (Nat.le_of_lt hlt) fun _ => hlt
  refine messageEnding?_of_starts hkind (hmessage.starts_manchester _) ?_
  cases kind with
  | scm =>
    rintro (hidm | hplus)
    · exact hlonger (by decide) hidm
    · exact hlonger (by decide) hplus
  | scmPlus => exact hlonger (by decide)
  | idm => exact not_false
  | idm18 => exact not_false

/-- Nothing is found in a lead-in. -/
theorem messageEnding?_leadIn (hnow : now <+: leadIn stray zeros) : messageEnding? now = none := by
  -- what comes after the lead-in makes no difference; let it be the shortest message
  have hmessage := Scm.isMessage_encode {}
  refine Option.eq_none_iff_forall_ne_some.mpr fun other hother => ?_
  have hne : now ≠ leadIn stray zeros ++ manchester (Scm.encode {}) := by
    rintro rfl
    have hlen := hnow.length_le
    rw [List.length_append, length_manchester, hmessage.length_eq] at hlen
    have hsize : Kind.scm.rawSize = 12 := rfl
    omega
  have hlt := rawSize_lt_of_messageEnding? hmessage (hnow.trans (List.prefix_append _ _)) hne hother
  exact absurd other.le_rawSize (Nat.not_le.mpr hlt)

theorem behind_leadIn {rest : List Bool} (hnow : now <+: leadIn stray zeros ++ rest)
    (hfound : messageEnding? now = some other) :
    leadIn stray zeros <+: now ∧ now ≠ leadIn stray zeros := by
  have hnot : ¬now <+: leadIn stray zeros := by
    intro hlead
    rw [messageEnding?_leadIn hlead] at hfound
    cases hfound
  constructor
  · rcases List.prefix_or_prefix_of_prefix hnow (List.prefix_append _ _) with hlead | hlead
    · exact absurd hlead hnot
    · exact hlead
  · rintro rfl
    exact hnot List.prefix_rfl

end Line

/-! ## In a run -/

namespace Receiver

variable {C α : Type} [Clock C] {r : Receiver C α} {init : List Bool} {last : Bool}

/-- The last thing that is found is the message. What is found earlier is shorter and ends inside
it. -/
structure Locates (kind : Kind) (raw : Bytes) (lead : List Bool) (early : List Stamped)
    (sent : Stamped) : Prop where
  kind_eq : sent.capture.kind = kind
  message_eq : sent.capture.message = raw
  endsAt : sent.capture.EndsAt (lead ++ manchester raw)
  early : ∀ s ∈ early, s.capture.kind.rawSize < kind.rawSize ∧ ∃ now, lead <+: now ∧ now ≠ lead ∧
    now <+: lead ++ manchester raw ∧ s.capture.EndsAt now

theorem exists_locates (htracks : Tracks r []) (hen : r.sampler.enabled = true)
    (hmessage : IsMessage kind raw) (hkind : kind ≠ .idm18)
    (hsplit : leadIn stray zeros ++ manchester raw = init ++ [last]) :
    ∃ sent, (r.feedAll init).foundBy (.sample last) = [sent] ∧
      Locates kind raw (leadIn stray zeros) (r.found (init.map Call.sample)) sent := by
  obtain ⟨hbefore, hstill⟩ := htracks.feedAll hen init
  have hwhole := messageEnding?_message hmessage hkind stray zeros
  rw [hsplit] at hwhole
  obtain ⟨sent, hsent, hends⟩ := hbefore.exists_foundBy hstill hwhole
  rw [List.nil_append, ← hsplit] at hends
  rw [← hsplit] at hwhole
  have hone : (r.feedAll init).foundBy (.sample last) = [sent] := by
    cases (r.feedAll init).effect (.sample last) with
    | quiet h => exact absurd (h.found ▸ hsent) List.not_mem_nil
    | finds s h =>
      rw [h.found] at hsent ⊢
      rw [List.mem_singleton.mp hsent]
  have hbits : lastBits (leadIn stray zeros ++ manchester raw) (8 * kind.rawSize) = Bytes.bits raw := by
    rw [← hmessage.length_eq, lastBits_manchester]
  obtain ⟨hsame, hraw⟩ := hends.eq_of_lastBits hwhole hbits
  refine ⟨sent, hone, hsame, hraw, hends, fun s hs => ?_⟩
  obtain ⟨now, hnow, hearly⟩ := htracks.exists_endsAt hs
  rw [heard_map_sample hen, List.nil_append] at hnow
  have hlen := hnow.length_le
  have hinside : now <+: leadIn stray zeros ++ manchester raw := hnow.trans ⟨[last], hsplit.symm⟩
  have hne : now ≠ leadIn stray zeros ++ manchester raw := by
    rintro rfl
    rw [hsplit, List.length_append, List.length_singleton] at hlen
    omega
  obtain ⟨hlead, hnelead⟩ := behind_leadIn hinside hearly.kind_eq
  exact ⟨rawSize_lt_of_messageEnding? hmessage hinside hne hearly.kind_eq, now, hlead, hnelead,
    hinside, hearly⟩

end Receiver

end MeterRadio
