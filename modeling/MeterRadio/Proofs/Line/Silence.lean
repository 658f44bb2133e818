import MeterRadio.Proofs.Line.Detector

/-!
# Silence before the first sample

A new detector takes the line to have been low forever. If it is switched on some low samples earlier, it
finds nothing among these and then the same messages, with the same bytes (`messages_silence`). The two
detectors are not in the same state meanwhile: their windows have advanced by different amounts, and
after an odd number of samples the two alignments have changed places. But they have heard histories
with the same bits, and what is found depends on nothing else (`Heard.feed_congr`).
-/

namespace MeterRadio.Line.Detector

variable {d e : Detector} {past other : List Bool}

theorem messages_cons (d : Detector) (index : Nat) (sample : Bool) (samples : List Bool) :
    d.messages index (sample :: samples) =
      ((d.feed sample).2.map fun c => (index, c.kind, c.message)).toList ++
        (d.feed sample).1.messages (index + 1) samples := by
  rw [messages, scan_cons, List.map_append, messages]
  cases (d.feed sample).2 <;> rfl

theorem messages_append (d : Detector) (index : Nat) (before after : List Bool) :
    d.messages index (before ++ after) =
      d.messages index before ++ (d.feedAll before).messages (index + before.length) after := by
  rw [messages, scan_append, List.map_append, messages, messages]

/-- Detectors that have heard the same bits find the same message with the next sample, if any. -/
theorem Heard.feed_congr (h : d.Heard past) (h' : e.Heard other) {sample : Bool}
    (hbits : bitOfAge (past ++ [sample]) = bitOfAge (other ++ [sample])) :
    (d.feed sample).2.map (fun c => (c.kind, c.message)) =
      (e.feed sample).2.map fun c => (c.kind, c.message) := by
  have hkinds : (d.feed sample).2.map Capture.kind = (e.feed sample).2.map Capture.kind := by
    rw [(h.feed_snd sample).1, (h'.feed_snd sample).1, messageEnding?_congr hbits]
  cases hd : (d.feed sample).2 with
  | none =>
    rw [hd, Option.map_none, eq_comm, Option.map_eq_none_iff] at hkinds
    rw [hkinds]
  | some c =>
    rw [hd, Option.map_some, eq_comm, Option.map_eq_some_iff] at hkinds
    obtain ⟨c', he, -⟩ := hkinds
    have hend := h.endsAt hd
    have hend' := h'.endsAt he
    have hlast := congrFun (lastBits_congr hbits) (8 * c'.kind.rawSize)
    obtain ⟨hkind, hmessage⟩ := hend.eq_of_lastBits
      ((messageEnding?_congr hbits).trans hend'.kind_eq) (hlast.trans hend'.bits_message.symm)
    rw [he, Option.map_some, Option.map_some, hkind, hmessage]

theorem Heard.feed_silent {n : Nat} (h : d.Heard (List.replicate n false)) :
    (d.feed false).2 = none := by
  have hsilent : messageEnding? (List.replicate n false ++ [false]) = none := by
    rw [← List.replicate_succ', ← List.append_nil (List.replicate (n + 1) false),
      messageEnding?_congr (bitOfAge_silence _ _), messageEnding?_nil]
  have hkind := (h.feed_snd false).1
  rwa [hsilent, Option.map_eq_none_iff] at hkind

/-- Nothing is found while the line is silent. -/
theorem Heard.messages_replicate_false {n : Nat} (h : d.Heard (List.replicate n false))
    (index k : Nat) : d.messages index (List.replicate k false) = [] := by
  induction k generalizing d n index with
  | zero => rfl
  | succ k ih =>
    have hnext := h.feed false
    rw [← List.replicate_succ'] at hnext
    rw [List.replicate_succ, messages_cons, h.feed_silent, ih hnext]
    rfl

/-- Detectors that have heard the same samples, one of them after a silence, go on to find the same
messages. -/
theorem Heard.messages_congr {n : Nat} (h : d.Heard (List.replicate n false ++ past))
    (h' : e.Heard past) (index : Nat) (samples : List Bool) :
    d.messages index samples = e.messages index samples := by
  -- both histories grow by the same sample, and silence in front makes no difference to either
  induction samples generalizing d e past index with
  | nil => rfl
  | cons sample samples ih =>
    have hnext := h.feed sample
    rw [List.append_assoc] at hnext
    have hbits : bitOfAge (List.replicate n false ++ past ++ [sample]) = bitOfAge (past ++ [sample]) := by
      rw [List.append_assoc, bitOfAge_silence]
    have hfeed := h.feed_congr h' hbits
    have hnow := congrArg (Option.map fun m : Kind × Bytes => (index, m)) hfeed
    rw [Option.map_map, Option.map_map] at hnow
    rw [messages_cons, messages_cons, ih hnext (h'.feed sample)]
    exact congrArg (fun found => Option.toList found ++ _) hnow

/-- **Silence before the first sample only shifts what is found.** A new detector finds nothing among
any number of low samples. Among samples that come after them it finds the messages, of the same kinds
and with the same bytes, that a new detector finds which is fed these samples alone: each one ends with
the same sample, whose number is greater by the number of low samples. -/
theorem messages_silence (n : Nat) (samples : List Bool) :
    start.messages 0 (List.replicate n false) = [] ∧
      start.messages 0 (List.replicate n false ++ samples) = start.messages n samples := by
  have hsilent : start.messages 0 (List.replicate n false) = [] :=
    Heard.messages_replicate_false (n := 0) heard_start 0 n
  have hheard : (start.feedAll (List.replicate n false)).Heard (List.replicate n false ++ []) := by
    rw [List.append_nil]
    exact heard_start.feedAll _
  refine ⟨hsilent, ?_⟩
  rw [messages_append, hsilent, List.nil_append, List.length_replicate, Nat.zero_add]
  exact hheard.messages_congr heard_start n samples

end MeterRadio.Line.Detector
