import MeterRadio.Proofs.Ring.Safety

/-!
# Filling a new ring

As long as nothing is taken out of a new ring its frames lie in one row from the start of the storage,
and how much room there is depends on nothing but how many bytes are used (`Filled`).
-/

namespace MeterRadio.FrameRing

variable {r : FrameRing} {frame : Bytes} {used size : Nat}

/-- Bytes that a frame takes up, with its length. -/
def stored (frame : Bytes) : Nat :=
  prefixSize + frame.length

/-- Nothing was taken out of the ring, and its frames take up `used` bytes. -/
structure Filled (r : FrameRing) (used : Nat) : Prop where
  tail_eq : r.tail = 0
  head_eq : r.head = used
  used_lt : used < r.capacity

theorem filled_ofCapacity (h : Usable size) : Filled (ofCapacity size) 0 where
  tail_eq := rfl
  head_eq := rfl
  used_lt := by
    rw [capacity_ofCapacity h]
    exact Nat.lt_trans (Nat.zero_lt_succ 1) h.1

theorem Filled.freeSpace_eq (h : Filled r used) :
    r.freeSpace = r.capacity - 1 - (used + prefixSize) := by
  have hused := h.used_lt
  have hle : r.tail ≤ r.head := h.tail_eq ▸ Nat.zero_le _
  rw [freeSpace_of_le (by omega) hle, limit, h.tail_eq, h.head_eq, if_pos rfl, Nat.zero_sub,
    Nat.max_zero]

/-- There is room for a frame if one byte is left over behind it. -/
theorem Filled.push_of_lt (h : Filled r used) (hne : frame ≠ [])
    (hroom : used + stored frame < r.capacity) :
    (r.push frame).1.isOk = true ∧ Filled (r.push frame).2 (used + stored frame) := by
  have hused := h.used_lt
  rw [stored] at hroom ⊢
  have hfree : ¬r.freeSpace < frame.length := by
    rw [h.freeSpace_eq]
    omega
  have hplace : r.place frame.length = ⟨none, used⟩ := by
    rw [place, if_pos, h.head_eq]
    right
    rw [limit, if_pos h.tail_eq, h.head_eq]
    omega
  have hpush : r.push frame = (.ok (), (r.store ⟨none, used⟩ frame).value) := by
    rw [push, pushTraced, if_neg (by omega), if_neg hne]
    dsimp only
    rw [if_neg hfree, hplace]
    rfl
  rw [hpush]
  refine ⟨rfl, h.tail_eq, ?_, ?_⟩
  · rw [value_store, ← Nat.add_assoc]
    exact wrap_of_lt (by omega)
  · rw [capacity_store]
    exact hroom

theorem Filled.push_of_ge (h : Filled r used) (hne : frame ≠ [])
    (hfull : r.capacity ≤ used + stored frame) :
    (r.push frame).1.isOk = false ∧ Filled (r.push frame).2 used := by
  have hused := h.used_lt
  have hpos := List.length_pos_iff.mpr hne
  rw [stored] at hfull
  have hfree : r.freeSpace < frame.length := by
    rw [h.freeSpace_eq]
    omega
  have hpush : r.push frame = (.error (.full frame.length r.freeSpace), r.countOverflow) := by
    rw [push, pushTraced, if_neg (by omega), if_neg hne]
    dsimp only
    rw [if_pos hfree]
    rfl
  rw [hpush]
  exact ⟨rfl, h.tail_eq, h.head_eq, h.used_lt⟩

end MeterRadio.FrameRing
