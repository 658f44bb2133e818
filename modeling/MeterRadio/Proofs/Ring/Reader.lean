import Mathlib.Order.MinMax
import Mathlib.Order.Nat
import MeterRadio.Proofs.Ring.Queue

/-!
# Readers make room

Whoever reads a ring moves `tail` and nothing else: over the frame that is taken out, and from a
sentinel or the end of the storage to its start. Each of these moves leaves at least as much room in
one piece as there was before (`AtTail.freeSpace_le_removed`, `freeSpace_le_settled`), although the
largest room may be another one after it, and although `head` may not reach the end of the storage once
`tail` is at its start. So what the writer has found to fit goes on to fit until it writes
(`push_ok_run_consumer`).
-/

namespace MeterRadio.FrameRing

variable {r : FrameRing} {q rest : List Bytes} {frame : Bytes}

/-! ## Moves of `tail` -/

/-- Where `tail` goes to the start of the storage, the room between two pieces becomes the room behind
the only one. -/
theorem freeSpace_le_settled {pos : Nat} (htail : r.tail < r.capacity)
    (hpos : pos = r.tail ∨ pos = 0 ∧ r.head < r.tail) :
    r.freeSpace ≤ ({ r with tail := pos } : FrameRing).freeSpace := by
  rcases hpos with rfl | ⟨rfl, hlt⟩
  · exact Nat.le_refl _
  · have hcap : 0 < r.capacity := Nat.zero_lt_of_lt htail
    have hlimit : ({ r with tail := 0 } : FrameRing).limit = r.capacity - 1 := rfl
    rw [freeSpace_of_lt hcap hlt, freeSpace_of_le (r := { r with tail := 0 }) hcap (Nat.zero_le _),
      hlimit]
    refine Nat.le_trans ?_ (Nat.le_max_left _ _)
    show r.tail - r.head - (prefixSize + 1) ≤ r.capacity - 1 - (r.head + prefixSize)
    omega

theorem AtTail.freeSpace_le_removed (h : AtTail r frame rest) :
    r.freeSpace ≤
      ({ r with tail := r.wrap (r.tail + prefixSize + frame.length) } : FrameRing).freeSpace := by
  obtain ⟨older, stop, hlaid, hstop, hbefore⟩ := h.laid
  have hhead := h.head_lt
  have hcap : 0 < r.capacity := Nat.zero_lt_of_lt hhead
  have hend := hlaid.head_le
  have hmoves : r.tail < r.tail + prefixSize + frame.length :=
    Nat.lt_add_right _ (Nat.lt_add_of_pos_right (Nat.zero_lt_succ 1))
  generalize r.tail + prefixSize + frame.length = next at hend hmoves ⊢
  by_cases hle : r.tail ≤ r.head
  · -- both rooms grow, and `head` may reach the end of the storage from now on
    have hnext := Nat.le_trans hend (hbefore hle)
    have hlimit : ({ r with tail := next } : FrameRing).limit = r.capacity :=
      limit_of_pos (Nat.zero_lt_of_lt hmoves)
    rw [wrap_of_lt (Nat.lt_of_le_of_lt hnext hhead), freeSpace_of_le hcap hle,
      freeSpace_of_le (r := { r with tail := next }) hcap hnext, hlimit]
    exact max_le_max (Nat.sub_le_sub_right r.limit_le _)
      (Nat.sub_le_sub_right (Nat.le_of_lt hmoves) _)
  · have hlt := Nat.lt_of_not_le hle
    by_cases he : next = r.capacity
    · rw [wrap_capacity he]
      exact freeSpace_le_settled h.tail_lt (Or.inr ⟨rfl, hlt⟩)
    · rw [wrap_of_lt (by omega), freeSpace_of_lt hcap hlt,
        freeSpace_of_lt (r := { r with tail := next }) hcap (Nat.lt_trans hlt hmoves)]
      exact Nat.sub_le_sub_right (Nat.sub_le_sub_right (Nat.le_of_lt hmoves) _) _

/-! ## Operations -/

theorem Holds.freeSpace_le_peek (h : Holds r q) : r.freeSpace ≤ r.peek.2.freeSpace := by
  cases q with
  | nil => rw [h.peek_nil]
  | cons frame rest =>
    obtain ⟨pos, hpos, -, hpeek⟩ := h.peek_cons
    rw [hpeek]
    exact freeSpace_le_settled h.tail_lt hpos

theorem Holds.freeSpace_le_pop (h : Holds r q) (out : Option Bytes) :
    r.freeSpace ≤ (r.pop out).2.freeSpace := by
  cases q with
  | nil => rw [h.pop_nil]
  | cons frame rest =>
    obtain ⟨pos, hpos, hat, hpop⟩ := h.pop_cons out
    rw [hpop]
    exact Nat.le_trans (freeSpace_le_settled h.tail_lt hpos) hat.freeSpace_le_removed

theorem Holds.freeSpace_le_step (h : Holds r q) {op : Op} (hop : Handle.consumer.Offers op) :
    r.freeSpace ≤ (r.step op).2.freeSpace := by
  cases op with
  | push frame => exact absurd hop id
  | freeSpace => exact absurd hop id
  | peek => exact h.freeSpace_le_peek
  | pop out => exact h.freeSpace_le_pop out
  | isEmpty => exact Nat.le_refl _
  | takeOverflow => exact Nat.le_refl _

theorem Models.freeSpace_le_run {q : FrameQueue} (h : Models r q) {ops : List Op}
    (hops : ∀ op ∈ ops, Handle.consumer.Offers op) : r.freeSpace ≤ (r.run ops).2.freeSpace := by
  induction ops generalizing r q with
  | nil => exact Nat.le_refl _
  | cons op ops ih =>
    rw [List.forall_mem_cons] at hops
    exact Nat.le_trans (h.holds.freeSpace_le_step hops.1) (ih (h.step op).2 hops.2)

/-- **Reading takes no room away.** Over usable storage, after any operations, neither looking at the
oldest frame nor removing it, with or without a buffer, makes the free space smaller. So a frame that
would be taken now is also taken after the consumer has done anything it can do, any number of
times. -/
theorem push_ok_run_consumer {storage : Bytes} (h : Usable storage.length) (ops : List Op) :
    let r := ((ofStorage storage).run ops).2
    (r.freeSpace ≤ r.peek.2.freeSpace ∧ ∀ out, r.freeSpace ≤ (r.pop out).2.freeSpace) ∧
      ∀ reads : List Op, (∀ op ∈ reads, Handle.consumer.Offers op) →
        ∀ frame, (r.push frame).1 = .ok () → ((r.run reads).2.push frame).1 = .ok () := by
  intro r
  have hmodels := ((models_ofStorage h).run ops).2
  refine ⟨⟨hmodels.holds.freeSpace_le_peek, hmodels.holds.freeSpace_le_pop⟩,
    fun reads hreads frame hok => ?_⟩
  have hlater := (hmodels.run reads).2
  have hroom := hmodels.freeSpace_le_run hreads
  obtain ⟨hne, hlen⟩ := hmodels.holds.push_ok_iff.mp hok
  exact hlater.holds.push_ok_iff.mpr ⟨hne, Nat.le_trans hlen hroom⟩

/-- In nine bytes of storage three bytes have room behind a frame of one byte, and so they have when
that frame was looked at and taken out. -/
theorem push_ok_run_consumer_nine :
    let r := ((ofStorage (List.replicate 9 0xEE)).run [.push [1]]).2
    Usable (List.replicate 9 (0xEE : UInt8)).length ∧
      (∀ op ∈ [Op.peek, .pop none], Handle.consumer.Offers op) ∧ (r.push [5, 6, 7]).1 = .ok () ∧
      ((r.run [.peek, .pop none]).2.push [5, 6, 7]).1 = .ok () :=
  have husable : Usable (List.replicate 9 (0xEE : UInt8)).length := by decide
  have hreads : ∀ op ∈ [Op.peek, .pop none], Handle.consumer.Offers op :=
    List.forall_mem_cons.mpr ⟨trivial, List.forall_mem_singleton.mpr trivial⟩
  have hnow : (((ofStorage (List.replicate 9 0xEE)).run [.push [1]]).2.push [5, 6, 7]).1 = .ok () := by
    decide
  ⟨husable, hreads, hnow, (push_ok_run_consumer husable [.push [1]]).2 _ hreads _ hnow⟩

end MeterRadio.FrameRing
