import MeterRadio.Frame.Content
import MeterRadio.Frame.Memory

/-!
# Unpacking in working memory

All frames are decoded in the same few bytes. A capture is copied to the start of this memory and
realigned there; behind it the memory holds what longer captures have left.

`FrameContent.unpack` decodes a frame in this way. What it makes of a frame is what
`FrameContent.ofBytes` says, whatever the memory held before.
-/

namespace MeterRadio

/-- Memory with room for the longest capture. -/
abbrev Scratch := Memory maxPayload

namespace FrameContent

/-- Decodes a frame in working memory. -/
def unpack (scratch : Scratch) (frame : Bytes) : Except FrameError FrameContent × Scratch :=
  match FrameHeader.ofBytes? frame with
  | none => (.error (.malformed frame.length), scratch)
  | some header =>
    match header.kind? with
    | none => (.error (.unknownKind header.tag), scratch)
    | some kind =>
      let payload := frame.drop FrameHeader.size
      let len := payload.length
      if maxPayload < len then (.error (.malformed frame.length), scratch)
      else
        let scratch := scratch.put 0 payload
        let scratch := scratch.put 0 (realign (scratch.front len) header.bitOffset.toNat)
        let result := do
          let record ← (Record.decode kind (scratch.front len)).mapError .message
          return { header, record, raw := scratch.front (min kind.rawSize len) }
        (result, scratch)

/-- What the memory held before makes no difference. -/
theorem unpack_fst (scratch : Scratch) (frame : Bytes) : (unpack scratch frame).1 = ofBytes frame := by
  rw [unpack, ofBytes]
  cases FrameHeader.ofBytes? frame with
  | none => rfl
  | some header =>
    dsimp only
    cases header.kind? with
    | none => rfl
    | some kind =>
      dsimp only
      generalize frame.drop FrameHeader.size = payload
      by_cases hlen : maxPayload < payload.length
      · rw [if_pos hlen, if_pos hlen]
      · have hwritten {d : Bytes} {n : Nat} (memory : Scratch) (hd : d.length = payload.length)
            (hn : n ≤ payload.length) : (memory.put 0 d).front n = d.take n := by
          rw [Memory.front_put _ (by omega) (by omega), Memory.front_zero, List.nil_append]
        have hsize := length_realign payload header.bitOffset.toNat
        rw [if_neg hlen, if_neg hlen, ofPayload]
        dsimp only
        rw [hwritten _ rfl (Nat.le_refl _), List.take_length]
        generalize realign payload header.bitOffset.toNat = aligned at hsize
        -- a message is never longer than the capture that it is cut from
        have hfull : aligned.take payload.length = aligned := List.take_of_length_le (by omega)
        rw [hwritten _ hsize (Nat.le_refl _), hwritten _ hsize (Nat.min_le_right _ _),
          ← List.take_take, hfull]

end FrameContent

end MeterRadio
