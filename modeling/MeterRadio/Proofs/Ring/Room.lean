import MeterRadio.Config.Basic
import MeterRadio.Frame.Header
import MeterRadio.Proofs.Ring.Safety

/-!
# Room in an empty ring

No frame runs over the physical end of the storage, so an empty ring does not offer all of it to one
frame. How much lies in one piece depends on where the indices have come to rest; it is about half of
the storage at least (`Holds.half_le_freeSpace`), and no more than that where they rest in the middle
(`exists_half_freeSpace`). A ring that has been emptied is never stuck (`half_le_freeSpace_run`).

So a ring that is emptied takes the longest frame again only if it has room for two of them. A valid
configuration may have less (`takes_idm_iff`).
-/

namespace MeterRadio

/-- Bytes of the frame of a capture: a header, the message and the byte more. -/
def Kind.frameSize (kind : Kind) : Nat :=
  FrameHeader.size + kind.rawSize + 1

theorem Kind.frameSize_le (kind : Kind) : kind.frameSize ≤ Kind.idm.frameSize := by
  cases kind <;> decide

theorem Config.le_ringCapacity {c : Config} (h : c.validate = .ok ()) :
    128 ≤ c.receiver.ringCapacity := by
  unfold validate at h
  split at h
  · cases h
  · omega

namespace FrameRing

variable {r : FrameRing} {frame : Bytes} {size : Nat}

/-- The operation pushes a frame of a capture or pops. -/
def Op.OfCapture : Op → Prop
  | .push frame => ∃ kind : Kind, frame.length = kind.frameSize
  | .pop _ => True
  | _ => False

/-- Indices that rest inside the storage leave room behind them and before them. -/
theorem Holds.freeSpace_at_rest (h : Holds r []) (hpos : 0 < r.head) :
    r.freeSpace = max (r.capacity - (r.head + prefixSize)) (r.head - (prefixSize + 1)) := by
  have hmeet := h.tail_eq_head_iff.mpr rfl
  rw [freeSpace_of_le h.usable.capacity_pos (Nat.le_of_eq hmeet), limit_of_pos (hmeet ▸ hpos), hmeet]

/-- At rest in the middle of the storage the indices leave half of it on either side. -/
theorem Holds.half_le_freeSpace (h : Holds r []) : (r.capacity - 4) / 2 ≤ r.freeSpace := by
  have hprefix : prefixSize = 2 := rfl
  rcases Nat.eq_zero_or_pos r.head with hzero | hpos
  · have hmeet := h.tail_eq_head_iff.mpr rfl
    rw [freeSpace_of_le h.usable.capacity_pos (Nat.le_of_eq hmeet), limit,
      if_pos (hmeet.trans hzero)]
    omega
  · rw [h.freeSpace_at_rest hpos]
    omega

theorem Holds.push_ok {frames : List Bytes} (h : Holds r frames) (hne : frame ≠ [])
    (hlen : frame.length ≤ r.freeSpace) : (r.push frame).1 = .ok () :=
  h.push_ok_iff.mpr ⟨hne, hlen⟩

/-- Where two longest frames have room, an empty ring takes any frame of a capture. -/
theorem Holds.idm_le_freeSpace (h : Holds r []) (hcap : 202 ≤ r.capacity) :
    Kind.idm.frameSize ≤ r.freeSpace := by
  have hhalf := h.half_le_freeSpace
  have hidm : Kind.idm.frameSize = 99 := rfl
  omega

/-- A frame that goes through a new ring leaves both indices behind it. -/
theorem rest_behind (h : Usable size) (hne : frame ≠ []) (hlen : frame.length + 3 ≤ size) :
    let r := ((ofCapacity size).run [.push frame, .pop none]).2
    Holds r [] ∧ r.head = frame.length + 2 := by
  intro r
  have hcap := capacity_ofCapacity h
  have hnew := holds_ofCapacity h
  have hprefix : prefixSize = 2 := rfl
  have hhead : (ofCapacity size).head = 0 := rfl
  have htail : (ofCapacity size).tail = 0 := rfl
  have hlimit : (ofCapacity size).limit = size - 1 := by rw [limit, if_pos htail, hcap]
  have hfree : frame.length ≤ (ofCapacity size).freeSpace := by
    rw [freeSpace_of_le (by omega) (by omega), hlimit]
    omega
  constructor
  · have hmodels := (hnew.models.run [.push frame, .pop none]).2.holds
    simpa [observe, FrameQueue.run, FrameQueue.step, FrameQueue.push, FrameQueue.pop, hne, hfree]
      using hmodels
  · obtain ⟨-, -, hstore⟩ := eq_store_of_push_ok (hnew.push_ok hne hfree)
    obtain ⟨tail, hpop⟩ := exists_tail_pop ((ofCapacity size).push frame).2 none
    have hplace : (ofCapacity size).place frame.length = ⟨none, 0⟩ := by
      rw [place, if_pos (Or.inr (by omega)), hhead]
    show (((ofCapacity size).push frame).2.pop none).2.head = frame.length + 2
    rw [hpop, hstore, hplace, value_store]
    show (ofCapacity size).wrap (0 + prefixSize + frame.length) = frame.length + 2
    rw [wrap_of_lt (by omega)]
    omega

/-- What room a new ring has once a frame has gone through it: behind the frame, or before its end. -/
theorem freeSpace_behind (h : Usable size) (hne : frame ≠ []) (hlen : frame.length + 3 ≤ size) :
    let r := ((ofCapacity size).run [.push frame, .pop none]).2
    r.isEmpty = true ∧ r.freeSpace = max (size - (frame.length + 4)) (frame.length - 1) := by
  intro r
  obtain ⟨hholds, hhead⟩ := rest_behind h hne hlen
  have hcap : r.capacity = size := (capacity_run _ _).trans (capacity_ofCapacity h)
  have hrest : r.freeSpace = max (r.capacity - (r.head + prefixSize)) (r.head - (prefixSize + 1)) :=
    hholds.freeSpace_at_rest (by omega)
  have hhead' : r.head = frame.length + 2 := hhead
  refine ⟨hholds.models.isEmpty, ?_⟩
  rw [hrest, hcap, hhead', prefixSize]
  omega

/-- Behind a frame of half the storage there is room for no more than another half. -/
theorem exists_half_freeSpace (h : Usable size) (hlow : 6 ≤ size) :
    ∃ frame : Bytes, let r := ((ofCapacity size).run [.push frame, .pop none]).2
      r.isEmpty = true ∧ r.freeSpace = (size - 4) / 2 := by
  have hlen : (List.replicate ((size - 4) / 2 + 1) (0 : UInt8)).length = (size - 4) / 2 + 1 :=
    List.length_replicate
  obtain ⟨hempty, hfree⟩ := freeSpace_behind h (List.ne_nil_of_length_eq_add_one hlen)
    (by omega : _ + 3 ≤ size)
  refine ⟨_, hempty, ?_⟩
  rw [hfree, hlen]
  omega

/-- **An emptied ring is never stuck.** A ring has 6 to 65535 bytes of storage. Whenever it is empty,
after any operations and whether its frames were taken or refused, it has room for one byte at least,
and it takes every frame of at most half the storage less four bytes. No more holds for any such
storage: behind some frame an empty ring has room for no more than this. -/
theorem half_le_freeSpace_run (hlow : 6 ≤ size) (hhigh : size ≤ 65535) :
    (∀ ops : List Op, let r := ((ofCapacity size).run ops).2
      r.isEmpty = true → (size - 4) / 2 ≤ r.freeSpace ∧ 1 ≤ r.freeSpace ∧
        ∀ frame : Bytes, frame ≠ [] → frame.length ≤ (size - 4) / 2 → (r.push frame).1 = .ok ()) ∧
      ∃ frame : Bytes, let r := ((ofCapacity size).run [.push frame, .pop none]).2
        r.isEmpty = true ∧ r.freeSpace = (size - 4) / 2 := by
  have husable : Usable size := ⟨by rw [prefixSize]; omega, hhigh⟩
  constructor
  · intro ops r hempty
    have hholds : Holds r [] := ((holds_ofCapacity husable).models.run ops).2.holds_nil hempty
    have hcap : r.capacity = size := (capacity_run _ ops).trans (capacity_ofCapacity husable)
    have hroom : (size - 4) / 2 ≤ r.freeSpace := hcap ▸ hholds.half_le_freeSpace
    exact ⟨hroom, by omega, fun frame hne hlen => hholds.push_ok hne (Nat.le_trans hlen hroom)⟩
  · exact exists_half_freeSpace husable hlow

/-- Six bytes of storage take one byte again wherever the indices have come to rest. -/
theorem half_le_freeSpace_run_six :
    let r := ((ofCapacity 6).run [.push [1], .push [2], .pop none]).2
    6 ≤ 6 ∧ 6 ≤ 65535 ∧ r.isEmpty = true ∧ (6 - 4) / 2 ≤ r.freeSpace ∧ (r.push [3]).1 = .ok () := by
  intro r
  have hempty : r.isEmpty = true := by decide
  obtain ⟨hroom, -, htakes⟩ :=
    (half_le_freeSpace_run (by decide : 6 ≤ 6) (by decide)).1 [.push [1], .push [2], .pop none] hempty
  exact ⟨by decide, by decide, hempty, hroom, htakes [3] (List.cons_ne_nil _ _) (by decide)⟩

/-- Between one and two longest frames the storage does not suffice: behind the first one there is
no room for another, nor before its end. -/
theorem exists_no_room (hlow : 128 ≤ size) (hhigh : size < 202) :
    ∃ ops : List Op, (∀ op ∈ ops, op.OfCapture) ∧ ((ofCapacity size).run ops).2.isEmpty = true ∧
      ((ofCapacity size).run ops).2.freeSpace < Kind.idm.frameSize := by
  have husable : Usable size := ⟨by rw [prefixSize]; omega, by rw [maxStorage]; omega⟩
  have hidm : Kind.idm.frameSize = 99 := rfl
  have hframe : (List.replicate 99 (0 : UInt8)).length = 99 := List.length_replicate
  obtain ⟨hempty, hfree⟩ := freeSpace_behind husable (List.ne_nil_of_length_eq_add_one hframe)
    (by omega : _ + 3 ≤ size)
  refine ⟨_, ?_, hempty, ?_⟩
  · intro op hop
    simp only [List.mem_cons, List.not_mem_nil, or_false] at hop
    rcases hop with rfl | rfl
    · exact ⟨.idm, hframe⟩
    · exact trivial
  · -- 101 bytes lie before the indices, and at most 100 behind them
    rw [hfree, hframe, hidm]
    omega

/-- **An empty ring takes an IDM exactly if its storage has room for two.** The ring of a valid
configuration gets frames of captures, and some are taken out again. Whenever it is empty after that,
an IDM goes in, provided that the ring has 202 bytes; with less, there are calls after which it is
empty and an IDM is refused. -/
theorem takes_idm_iff {c : Config} (h : c.validate = .ok ()) :
    (∀ ops : List Op, (∀ op ∈ ops, op.OfCapture) →
      let r := ((ofCapacity c.receiver.ringCapacity).run ops).2
      r.isEmpty = true → Kind.idm.frameSize ≤ r.freeSpace ∧
        ∀ frame : Bytes, frame.length = Kind.idm.frameSize → (r.push frame).1 = .ok ()) ↔
      202 ≤ c.receiver.ringCapacity := by
  have husable := Config.usable_of_validate h
  constructor
  · intro htakes
    by_contra hsmall
    obtain ⟨ops, hops, hempty, hfree⟩ :=
      exists_no_room (Config.le_ringCapacity h) (Nat.lt_of_not_le hsmall)
    exact absurd (htakes ops hops hempty).1 (Nat.not_le.mpr hfree)
  · intro hcap ops _ r hempty
    have hmodels := ((holds_ofCapacity husable).models.run ops).2
    have hholds : Holds r [] := by
      have hframes := hmodels.isEmpty.symm.trans hempty
      rw [← List.isEmpty_iff.mp hframes]
      exact hmodels.holds
    have hroom : Kind.idm.frameSize ≤ r.freeSpace := by
      refine hholds.idm_le_freeSpace ?_
      rw [capacity_run, capacity_ofCapacity husable]
      exact hcap
    refine ⟨hroom, fun frame hlen => hholds.push_ok ?_ (hlen ▸ hroom)⟩
    exact List.ne_nil_of_length_eq_add_one hlen

/-- The default ring takes an IDM whenever it is empty. -/
theorem takes_idm_default :
    ({} : Config).validate = .ok () ∧ ∀ ops : List Op, (∀ op ∈ ops, op.OfCapture) →
      let r := ((ofCapacity 512).run ops).2
      r.isEmpty = true → Kind.idm.frameSize ≤ r.freeSpace ∧
        ∀ frame : Bytes, frame.length = Kind.idm.frameSize → (r.push frame).1 = .ok () :=
  ⟨rfl, (takes_idm_iff (c := {}) rfl).mpr (by decide)⟩

/-- A ring of 128 bytes refuses an IDM although it is empty, because one was there before. -/
theorem refuses_idm_128 :
    ({ receiver := { ringCapacity := 128 } } : Config).validate = .ok () ∧
      let r := ((ofCapacity 128).run [.push (List.replicate 99 0), .pop none]).2
      r.isEmpty = true ∧ r.freeSpace = 98 ∧
        (r.push (List.replicate 99 0)).1 = .error (.full 99 98) := by
  refine ⟨rfl, ?_⟩
  decide +kernel

end FrameRing

end MeterRadio
