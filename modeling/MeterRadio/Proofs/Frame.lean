import MeterRadio.Frame.Unpack
import MeterRadio.Proofs.Message.Decode
import MeterRadio.Proofs.Number
import MeterRadio.Receiver.Sampler

/-!
# Frames of captures

A capture is queued behind a header that is read back as it was written, so a frame decodes to what
its capture holds: the bytes of the message on the boundaries of the sender. The bits that share the
first and the last byte of a capture with the message are shifted out, and so is what the working
memory held before (`FrameContent.unpack_frame`).
-/

namespace MeterRadio

open Line

namespace FrameHeader

/-- A header is read back as it was written, whatever follows it. -/
theorem ofBytes?_toBytes_append (h : FrameHeader) (rest : Bytes) :
    ofBytes? (h.toBytes ++ rest) = some h := by
  have hlen : ¬(h.toBytes ++ rest).length < size := by simp
  have hts : slice (h.toBytes ++ rest) 1 4 = leBytes 4 h.timestamp.toNat := by
    simp [toBytes, slice]
  have hoff : byteAt (h.toBytes ++ rest) 5 = h.bitOffset := by
    simp [toBytes, byteAt, leBytes]
  have hval : h.timestamp.toNat % 256 ^ 4 = h.timestamp.toNat :=
    Nat.mod_eq_of_lt h.timestamp.toNat_lt
  rw [ofBytes?, if_neg hlen, hts, hoff, leNat_leBytes, hval]
  simp [toBytes, byteAt]

end FrameHeader

/-- A frame that is put together in memory is the header and the captured bytes. Nothing is left in it of
what the memory held before, be it a longer frame. -/
theorem Line.Capture.front_assemble {c : Capture} (now : UInt32) (buffer : FrameBuffer)
    (h : c.raw.length ≤ c.kind.rawSize + 1) :
    (c.assemble now buffer).front (FrameHeader.size + c.raw.length) = c.frame now := by
  have hmax := c.kind.rawSize_le
  have hheader := (FrameHeader.ofKind c.kind now c.bitOffset).length_toBytes
  have hfront : (buffer.put 0 (FrameHeader.ofKind c.kind now c.bitOffset).toBytes).front
      FrameHeader.size = (FrameHeader.ofKind c.kind now c.bitOffset).toBytes := by
    rw [Memory.front_put _ (by omega) (by omega), Memory.front_zero, List.nil_append,
      List.take_of_length_le (by omega)]
  rw [assemble, Memory.front_put _ (Nat.le_refl _) (by omega), hfront, frame,
    List.take_of_length_le (by rw [List.length_append]; omega)]

theorem Line.Capture.length_frame (c : Capture) (now : UInt32) :
    (c.frame now).length = FrameHeader.size + c.raw.length := by
  rw [frame, List.length_append, FrameHeader.length_toBytes]

/-- A queued capture is realigned and decoded. -/
theorem FrameContent.ofBytes_frame {c : Capture} (now : UInt32)
    (hlen : c.raw.length = c.kind.rawSize + 1) :
    FrameContent.ofBytes (c.frame now) = do
      let raw := (realign c.raw c.bitOffset.toNat).take c.kind.rawSize
      let record ← (Record.decode c.kind raw).mapError .message
      return { header := FrameHeader.ofKind c.kind now c.bitOffset, record, raw } := by
  have hdrop : (c.frame now).drop FrameHeader.size = c.raw :=
    List.drop_left' (FrameHeader.length_toBytes _)
  have hkind : (FrameHeader.ofKind c.kind now c.bitOffset).kind? = some c.kind :=
    Kind.ofTag?_tag c.kind
  have hmax : ¬maxPayload < c.raw.length := by
    have hle := c.kind.rawSize_le
    rw [hlen, maxPayload]
    omega
  have hsize : c.kind.rawSize ≤ (realign c.raw c.bitOffset.toNat).length := by
    rw [length_realign, hlen]
    exact Nat.le_succ _
  have hheader : FrameHeader.ofBytes? (c.frame now) =
      some (FrameHeader.ofKind c.kind now c.bitOffset) := FrameHeader.ofBytes?_toBytes_append _ _
  rw [ofBytes, hheader]
  dsimp only
  rw [hkind]
  dsimp only
  rw [hdrop, if_neg hmax, ofPayload, Record.decode_take hsize]
  rfl

theorem FrameContent.ofBytes_frame_of_realign (c : Capture) {message : Bytes} (now : UInt32)
    (hlen : c.raw.length = c.kind.rawSize + 1)
    (hmessage : (realign c.raw c.bitOffset.toNat).take c.kind.rawSize = message) :
    FrameContent.ofBytes (c.frame now) =
      match Record.decode c.kind message with
      | .ok record =>
        .ok { header := FrameHeader.ofKind c.kind now c.bitOffset, record, raw := message }
      | .error e => .error (.message e) := by
  rw [ofBytes_frame now hlen, hmessage]
  dsimp only
  cases Record.decode c.kind message with
  | ok record => rfl
  | error e => rfl

theorem FrameContent.ofBytes_frame_ok {c : Capture} {raw : Bytes} {record : Record} (now : UInt32)
    (hlen : c.raw.length = c.kind.rawSize + 1)
    (hraw : (realign c.raw c.bitOffset.toNat).take c.kind.rawSize = raw)
    (hdecode : Record.decode c.kind raw = .ok record) :
    FrameContent.ofBytes (c.frame now) =
      .ok { header := FrameHeader.ofKind c.kind now c.bitOffset, record, raw } := by
  rw [ofBytes_frame_of_realign c now hlen hraw, hdecode]

/-! ## Captures at any offset -/

/-- The bits of a message are found again behind any bits that share its first byte. -/
theorem take_realign {d message : Bytes} {before after : List Bool} (hbefore : before.length < 8)
    (hbits : Bytes.bits d = before ++ Bytes.bits message ++ after)
    (hlen : message.length ≤ d.length) : (realign d before.length).take message.length = message := by
  refine Bytes.ext_bit (by rw [List.length_take, length_realign]; omega) fun i hi => ?_
  rw [List.length_take, length_realign] at hi
  have hend : i < 8 * message.length := by omega
  have hstart : before.length ≤ i + before.length := Nat.le_add_left _ _
  rw [Bytes.bit_take _ hend, bit_realign, Nat.mod_eq_of_lt hbefore, ← Bytes.getD_bits, hbits,
    List.append_assoc, List.getD_append_right _ _ _ _ hstart, Nat.add_sub_cancel,
    List.getD_append _ _ _ _ (by rwa [Bytes.length_bits]), Bytes.getD_bits]

namespace FrameContent

/-- **Capturing at any offset is undone.** A message is captured `k` bits into its first byte, between
`k` bits and `8 - k` bits that are not its own. The frame is unpacked to the header that was made for
it, what the message decodes to and its bytes, or to the error of the message. Neither the bits around
it nor what the working memory held before make a difference. -/
theorem unpack_frame (kind : Kind) (timestamp : UInt32) (scratch : Scratch) {message : Bytes} {k : Nat}
    {before after : List Bool} (hmessage : message.length = kind.rawSize) (hk : k ≤ 7)
    (hbefore : before.length = k) (hafter : after.length = 8 - k) :
    (unpack scratch ((FrameHeader.ofKind kind timestamp (UInt8.ofNat k)).toBytes ++
        ofBits (before ++ Bytes.bits message ++ after))).1 =
      match Record.decode kind message with
      | .ok record =>
        .ok
          { header := FrameHeader.ofKind kind timestamp (UInt8.ofNat k)
            record
            raw := message }
      | .error e => .error (.message e) := by
  have hfill : (before ++ Bytes.bits message ++ after).length = 8 * (kind.rawSize + 1) := by
    rw [List.length_append, List.length_append, Bytes.length_bits]
    omega
  have hsize : (ofBits (before ++ Bytes.bits message ++ after)).length = kind.rawSize + 1 := by
    rw [length_ofBits, hfill, Nat.mul_div_cancel_left _ (by decide)]
  have hoffset : (UInt8.ofNat k).toNat = before.length := by
    rw [UInt8.toNat_ofNat', hbefore]
    omega
  have haligned : (realign (ofBits (before ++ Bytes.bits message ++ after))
      (UInt8.ofNat k).toNat).take kind.rawSize = message := by
    rw [hoffset, ← hmessage]
    exact take_realign (by omega) (bits_ofBits hfill) (by omega)
  rw [unpack_fst]
  exact ofBytes_frame_of_realign ⟨kind, UInt8.ofNat k, _⟩ timestamp hsize haligned

/-- An SCM message three bits into its first byte, and memory that holds other bytes. -/
theorem unpack_frame_scm :
    let message : Bytes := [0xF9, 0x53, 0x02, 0x4E, 0x00, 0x30, 0x39, 0xF5, 0x19, 0x09, 0x11, 0xC7]
    let before := [true, false, true]
    let after := [true, true, false, false, true]
    let header := FrameHeader.ofKind .scm 1234 3
    message.length = Kind.scm.rawSize ∧ 3 ≤ 7 ∧ before.length = 3 ∧ after.length = 8 - 3 ∧
      (unpack (Vector.replicate maxPayload 0xA5)
          (header.toBytes ++ ofBits (before ++ Bytes.bits message ++ after))).1 =
        .ok
          { header
            record := .scm
              { id := 32839945, ertType := 3, tamperPhy := 1, tamperEnc := 2, consumption := 12345,
                crc := 0x11C7 }
            raw := message } := by
  intro message before after header
  have hdecode : Record.decode .scm message = .ok (.scm
      { id := 32839945, ertType := 3, tamperPhy := 1, tamperEnc := 2, consumption := 12345,
        crc := 0x11C7 }) := by decide +kernel
  have hmessage : message.length = Kind.scm.rawSize := rfl
  have hbefore : before.length = 3 := rfl
  have hafter : after.length = 8 - 3 := rfl
  have hunpack := unpack_frame .scm 1234 (Vector.replicate maxPayload 0xA5) hmessage
    (by decide : 3 ≤ 7) hbefore hafter
  rw [hdecode] at hunpack
  exact ⟨hmessage, by decide, hbefore, hafter, hunpack⟩

end FrameContent

end MeterRadio
