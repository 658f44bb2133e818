import MeterRadio.Line.Detector
import MeterRadio.Proofs.Line.History
import MeterRadio.Proofs.Line.Window

/-!
# A detector knows the whole history

A detector has two windows that take turns and forgets what is older than a window. Still it finds
the messages that are found in the complete history of the line (`feed_feedAll`). The two windows
show the history of the two symbol alignments (`Heard`), and no message is longer than a window. What
is captured are the latest bits in phase with the sample it ends with (`Capture.EndsAt`).
-/

namespace MeterRadio.Line

variable {past samples : List Bool} {sample : Bool}

/-! ## Messages in a window -/

namespace Window

variable {w : Window} {c : Nat}

theorem after_bitOfAge (past : List Bool) (sample : Bool) :
    after (dataBit (past.getLastD false) sample) (bitOfAge past.dropLast) =
      bitOfAge (past ++ [sample]) := by
  funext age
  cases age with
  | zero => exact (bitOfAge_append_zero past sample).symm
  | succ age => exact (bitOfAge_append_succ past sample age).symm

theorem ShowsAt.hasPreamble_iff (hs : ShowsAt w (bitOfAge samples) c) (kind : Kind) :
    kind.hasPreamble (w.word (c + span + 1 - 8 * kind.rawSize)) = true ↔ Starts kind samples := by
  have hsize := kind.le_rawSize
  refine Kind.hasPreamble_iff fun i hi => ?_
  rw [getElem?_lastBits (by omega), hs.testBit_word kind.rawSize_le (by omega) hi]

theorem ShowsAt.messageAt?_eq (hs : ShowsAt w (bitOfAge samples) c) :
    w.messageAt? (c + span + 1) = messageEnding? samples := by
  have hdecide (kind : Kind) :
      kind.hasPreamble (w.word (c + span + 1 - 8 * kind.rawSize)) = decide (Starts kind samples) := by
    rw [Bool.eq_iff_iff, hs.hasPreamble_iff, decide_eq_true_iff]
  rw [messageAt?, messageEnding?, searchOrder]
  simp only [List.find?, hdecide]
  by_cases hidm : Starts .idm samples
  · rw [if_pos hidm, decide_eq_true hidm]
  · rw [if_neg hidm, decide_eq_false hidm]
    by_cases hplus : Starts .scmPlus samples
    · rw [if_pos hplus, decide_eq_true hplus]
    · rw [if_neg hplus, decide_eq_false hplus]
      by_cases hscm : Starts .scm samples
      · rw [if_pos hscm, decide_eq_true hscm]
      · rw [if_neg hscm, decide_eq_false hscm]

/-- What is cut out of a window is the end of the history. -/
theorem ShowsAt.of_capture? (hs : ShowsAt w (bitOfAge samples) c) {found : Capture}
    (hfound : w.capture? (c + span + 1) = some found) :
    found.bitOffset.toNat = (c + 1) % 8 ∧ found.raw.length = found.kind.rawSize + 1 ∧
      Bytes.bits ((realign found.raw found.bitOffset.toNat).take found.kind.rawSize) =
        lastBits samples (8 * found.kind.rawSize) := by
  rw [capture?, Option.map_eq_some_iff] at hfound
  obtain ⟨kind, -, rfl⟩ := hfound
  have hsize := kind.le_rawSize
  have hmax : kind.rawSize ≤ 92 := kind.rawSize_le
  have hoffset : (UInt8.ofNat ((c + span + 1 - 8 * kind.rawSize) % 8)).toNat =
      (c + span + 1 - 8 * kind.rawSize) % 8 := by
    rw [UInt8.toNat_ofNat']
    omega
  dsimp only
  rw [hoffset]
  refine ⟨?_, hs.bits_realign kind.rawSize_le (by omega)⟩
  rw [span_eq]
  omega

end Window

/-! ## Captures -/

/-- The capture is the message that ends with the latest sample. -/
structure Capture.EndsAt (c : Capture) (samples : List Bool) : Prop where
  ne_nil : samples ≠ []
  kind_eq : messageEnding? samples = some c.kind
  length_raw : c.raw.length = c.kind.rawSize + 1
  bits_message : Bytes.bits c.message = lastBits samples (8 * c.kind.rawSize)

/-- What the history says is what was captured. -/
theorem Capture.EndsAt.eq_of_lastBits {c : Capture} {kind : Kind} {d : Bytes} (h : c.EndsAt samples)
    (hkind : messageEnding? samples = some kind)
    (hbits : lastBits samples (8 * kind.rawSize) = Bytes.bits d) : c.kind = kind ∧ c.message = d := by
  obtain rfl : c.kind = kind := Option.some.inj (h.kind_eq.symm.trans hkind)
  exact ⟨rfl, Bytes.bits_inj (h.bits_message.trans hbits)⟩

/-! ## Both alignments -/

namespace Detector

open Window (span)

variable {d : Detector}

theorem length_raw_le {c : Capture} (h : (d.feed sample).2 = some c) :
    c.raw.length ≤ c.kind.rawSize + 1 :=
  Window.length_raw_of_capture? h

theorem feedAll_append (d : Detector) (before after : List Bool) :
    d.feedAll (before ++ after) = (d.feedAll before).feedAll after := by
  induction before generalizing d with
  | nil => rfl
  | cons sample before ih => exact ih (d.feed sample).1

theorem scan_cons (d : Detector) (index : Nat) (sample : Bool) (samples : List Bool) :
    (d.scan index (sample :: samples)).2 =
      ((d.feed sample).2.map fun c => (index, c)).toList ++
        ((d.feed sample).1.scan (index + 1) samples).2 := rfl

theorem scan_append (d : Detector) (index : Nat) (before after : List Bool) :
    (d.scan index (before ++ after)).2 = (d.scan index before).2 ++
      ((d.feedAll before).scan (index + before.length) after).2 := by
  induction before generalizing d index with
  | nil => rfl
  | cons sample before ih =>
    rw [List.cons_append, scan_cons, scan_cons, ih, List.append_assoc, List.length_cons,
      Nat.add_right_comm, Nat.add_assoc]
    rfl

theorem captures_cons (d : Detector) (index : Nat) (sample : Bool) (samples : List Bool) :
    (d.scan index (sample :: samples)).2.map Prod.snd = (d.feed sample).2.toList ++
      ((d.feed sample).1.scan (index + 1) samples).2.map Prod.snd := by
  rw [scan_cons, List.map_append]
  cases (d.feed sample).2 <;> rfl

theorem captures_append (d : Detector) (index : Nat) (before after : List Bool) :
    (d.scan index (before ++ after)).2.map Prod.snd = (d.scan index before).2.map Prod.snd ++
      ((d.feedAll before).scan (index + before.length) after).2.map Prod.snd := by
  rw [scan_append, List.map_append]

/-- The detector has taken the samples `past`. The window whose turn it is has not seen the latest of
them. -/
structure Heard (d : Detector) (past : List Bool) : Prop where
  current : d.current.Shows (bitOfAge past.dropLast)
  current_cursor : d.current.cursor = past.length / 2 % span
  other : d.other.Shows (bitOfAge past)
  other_cursor : d.other.cursor = (past.length + 1) / 2 % span
  previous_eq : d.previous = past.getLastD false

theorem heard_start : Heard start [] where
  current := by
    rw [List.dropLast_nil, bitOfAge_nil]
    exact Window.shows_empty
  current_cursor := rfl
  other := by
    rw [bitOfAge_nil]
    exact Window.shows_empty
  other_cursor := rfl
  previous_eq := rfl

theorem Heard.shows_push (h : Heard d past) (sample : Bool) :
    (d.current.push (dataBit d.previous sample)).ShowsAt (bitOfAge (past ++ [sample]))
      d.current.cursor := by
  rw [← Window.after_bitOfAge, ← h.previous_eq]
  exact h.current.push_at _

theorem Heard.feed (h : Heard d past) (sample : Bool) :
    Heard (d.feed sample).1 (past ++ [sample]) where
  current := by
    rw [List.dropLast_concat]
    exact h.other
  current_cursor := by
    rw [List.length_append, List.length_singleton]
    exact h.other_cursor
  other := (h.shows_push sample).toShows
  other_cursor := by
    have hcursor : (d.feed sample).1.other.cursor = (d.current.cursor + 1) % span := rfl
    have hspan := Window.span_eq
    rw [hcursor, h.current_cursor, List.length_append, List.length_singleton, hspan]
    omega
  previous_eq := by
    rw [List.getLastD_concat]
    rfl

theorem Heard.feedAll (h : Heard d past) (samples : List Bool) :
    Heard (d.feedAll samples) (past ++ samples) := by
  induction samples generalizing d past with
  | nil =>
    rw [List.append_nil]
    exact h
  | cons sample samples ih =>
    rw [List.append_cons]
    exact ih (h.feed sample)

/-- What the next sample completes. -/
theorem Heard.feed_snd (h : Heard d past) (sample : Bool) :
    (d.feed sample).2.map Capture.kind = messageEnding? (past ++ [sample]) ∧
      ∀ c ∈ (d.feed sample).2, c.bitOffset.toNat = (past.length / 2 + 1) % 8 ∧
        c.raw.length = c.kind.rawSize + 1 ∧
        Bytes.bits ((realign c.raw c.bitOffset.toNat).take c.kind.rawSize) =
          lastBits (past ++ [sample]) (8 * c.kind.rawSize) := by
  have hshows := h.shows_push sample
  have hfeed : (d.feed sample).2 = (d.current.push (dataBit d.previous sample)).capture?
      (d.current.cursor + span + 1) := rfl
  constructor
  · rw [hfeed, Window.capture?, Option.map_map, ← hshows.messageAt?_eq]
    exact congrFun Option.map_id_fun' _
  · intro c hc
    rw [hfeed] at hc
    obtain ⟨hoffset, hlen, hbits⟩ := hshows.of_capture? hc
    refine ⟨?_, hlen, hbits⟩
    have hspan := Window.span_eq
    rw [hoffset, h.current_cursor, hspan]
    omega

/-- What is captured is the end of the history. -/
theorem Heard.endsAt {c : Capture} (h : d.Heard past) (hc : (d.feed sample).2 = some c) :
    c.EndsAt (past ++ [sample]) := by
  obtain ⟨hkind, hcapture⟩ := h.feed_snd sample
  obtain ⟨-, hlen, hbits⟩ := hcapture c hc
  rw [hc, Option.map_some] at hkind
  exact ⟨List.append_ne_nil_of_right_ne_nil _ (List.cons_ne_nil _ _), hkind.symm, hlen, hbits⟩

theorem Heard.length_raw (h : Heard d past) {index : Nat} {c : Capture}
    (hc : c ∈ (d.scan index samples).2.map Prod.snd) : c.raw.length = c.kind.rawSize + 1 := by
  induction samples generalizing d past index with
  | nil => exact absurd hc List.not_mem_nil
  | cons sample samples ih =>
    rw [captures_cons, List.mem_append] at hc
    rcases hc with hnow | hlater
    · exact ((h.feed_snd sample).2 c (Option.mem_toList.mp hnow)).2.1
    · exact ih (h.feed sample) hlater

/-- **A detector finds what the complete history holds.** A new detector, or one that was reset, is
fed any samples. The last one completes a message exactly if the latest bits in phase with it start
with a preamble; an IDM goes before an SCM+ and an SCM+ before an SCM. The message is cut out with
the bit it starts at, and realigning it gives the latest bits. -/
theorem feed_feedAll (h : d = start ∨ ∃ d₀ : Detector, d = d₀.reset) (past : List Bool)
    (sample : Bool) :
    ((d.feedAll past).feed sample).2.map Capture.kind = messageEnding? (past ++ [sample]) ∧
      ∀ c ∈ ((d.feedAll past).feed sample).2, c.bitOffset.toNat = (past.length / 2 + 1) % 8 ∧
        c.raw.length = c.kind.rawSize + 1 ∧
        Bytes.bits ((realign c.raw c.bitOffset.toNat).take c.kind.rawSize) =
          lastBits (past ++ [sample]) (8 * c.kind.rawSize) := by
  have hstart : d = start := by
    rcases h with rfl | ⟨d₀, rfl⟩
    · rfl
    · rfl
  rw [hstart]
  exact (heard_start.feedAll past).feed_snd sample

/-- The last sample of an SCM message completes it after a reset, too. -/
theorem feed_feedAll_scm :
    (start.reset = start ∨ ∃ d₀ : Detector, start.reset = d₀.reset) ∧
      ((start.reset.feedAll (manchester [0xF9, 0x53, 0, 0, 0, 0, 0, 0, 0, 0, 0, 0]).dropLast).feed
        true).2.map Capture.kind = some .scm :=
  ⟨Or.inr ⟨start, rfl⟩,
    (feed_feedAll (Or.inr ⟨start, rfl⟩) _ true).1.trans (by decide +kernel)⟩

end Detector

end MeterRadio.Line
