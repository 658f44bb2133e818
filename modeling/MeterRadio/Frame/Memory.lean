import MeterRadio.Bits.Basic

/-!
# Working memory

A fixed stretch of bytes that is used over and over. What is written replaces what was there, and the
bytes around it are left as earlier uses have left them.

Only the front of a memory is ever read, as far as it was written. `front_put` says what is there: what
stood before the written bytes, and the written bytes.
-/

namespace MeterRadio

/-- As many bytes as the longest use needs. -/
abbrev Memory (size : Nat) := Vector UInt8 size

namespace Memory

variable {size : Nat}

/-- Memory that was never used. -/
def zero : Memory size :=
  Vector.replicate size 0

/-- The first `n` bytes. -/
def front (m : Memory size) (n : Nat) : Bytes :=
  m.toList.take n

/-- The memory with the bytes from `pos` on overwritten by `d`, as far as there is room. -/
def put (m : Memory size) (pos : Nat) (d : Bytes) : Memory size :=
  Vector.ofFn fun i => if pos ≤ i then d.getD (i - pos) (m.get i) else m.get i

@[simp] theorem front_zero (m : Memory size) : m.front 0 = [] := rfl

theorem length_front {n : Nat} (m : Memory size) (h : n ≤ size) : (m.front n).length = n := by
  rw [front, List.length_take, Vector.length_toList]
  omega

/-- What was written last is read back, behind what stood before it. -/
theorem front_put {pos n : Nat} {d : Bytes} (m : Memory size) (h : n ≤ pos + d.length)
    (hsize : pos + d.length ≤ size) : (m.put pos d).front n = (m.front pos ++ d).take n := by
  have hpos : (m.front pos).length = pos := length_front m (by omega)
  have hwritten (i : Nat) (hi : i < size) : (m.put pos d).get ⟨i, hi⟩ =
      if pos ≤ i then d.getD (i - pos) (m.get ⟨i, hi⟩) else m.get ⟨i, hi⟩ :=
    Vector.getElem_ofFn hi
  have hread (m : Memory size) (n i : Nat) (hi : i < size) (hn : i < (m.front n).length) :
      (m.front n)[i] = m.get ⟨i, hi⟩ := by
    simp [front, Vector.get]
  apply List.ext_getElem
  · rw [length_front _ (by omega), List.length_take, List.length_append, hpos]
    omega
  · intro i hi hi'
    rw [length_front _ (by omega)] at hi
    rw [List.getElem_take, hread _ _ _ (by omega), hwritten]
    by_cases hle : pos ≤ i
    · have hlt : i - pos < d.length := by omega
      simp only [if_pos hle, List.getElem_append_right (by omega : (m.front pos).length ≤ i), hpos]
      rw [List.getD_eq_getElem?_getD, List.getElem?_eq_getElem hlt, Option.getD_some]
    · rw [if_neg hle, List.getElem_append_left (by omega), hread]

end Memory

end MeterRadio
