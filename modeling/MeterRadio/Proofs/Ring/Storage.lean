import MeterRadio.Frame.Ring
import MeterRadio.Proofs.Bits

/-!
# Bytes of a ring

What `overwrite` does to the single bytes of a storage, and what `bytesAt` gives back afterwards.
-/

namespace MeterRadio.FrameRing

variable {s t : Array UInt8} {d : Bytes} {pos len : Nat}

@[simp] theorem size_overwrite (s : Array UInt8) (pos : Nat) (d : Bytes) :
    (overwrite s pos d).size = s.size := by
  induction d generalizing s pos with
  | nil => rfl
  | cons b d ih => rw [overwrite, ih, Array.size_setIfInBounds]

/-- Bytes before and after the place that is overwritten stay as they are. -/
theorem getElem?_overwrite_of_outside {i : Nat} (h : i < pos ∨ pos + d.length ≤ i) :
    (overwrite s pos d)[i]? = s[i]? := by
  induction d generalizing s pos with
  | nil => rfl
  | cons b d ih =>
    have hne : pos ≠ i := by rw [List.length_cons] at h; omega
    have hrest : i < pos + 1 ∨ pos + 1 + d.length ≤ i := by rw [List.length_cons] at h; omega
    rw [overwrite, ih hrest, Array.getElem?_setIfInBounds_ne hne]

theorem getElem?_overwrite_add {k : Nat} (h : pos + d.length ≤ s.size) (hk : k < d.length) :
    (overwrite s pos d)[pos + k]? = d[k]? := by
  induction d generalizing s pos k with
  | nil => exact absurd hk (Nat.not_lt_zero k)
  | cons b d ih =>
    rw [List.length_cons] at h hk
    rw [overwrite]
    cases k with
    | zero =>
      rw [getElem?_overwrite_of_outside (Or.inl (by omega)), List.getElem?_cons_zero]
      exact Array.getElem?_setIfInBounds_self_of_lt (by omega)
    | succ k =>
      have hk' : pos + (k + 1) = pos + 1 + k := by omega
      rw [hk', ih (by rw [Array.size_setIfInBounds]; omega) (by omega), List.getElem?_cons_succ]

theorem getElem?_bytesAt (s : Array UInt8) (pos len k : Nat) :
    (bytesAt s pos len)[k]? = if k < len then s[pos + k]? else none := by
  rw [bytesAt, Array.getElem?_toList, Array.getElem?_extract]
  split_ifs with h1 h2 h2
  · rfl
  · omega
  · exact (Array.getElem?_eq_none (by omega)).symm
  · rfl

theorem bytesAt_congr (h : ∀ i, pos ≤ i → i < pos + len → s[i]? = t[i]?) :
    bytesAt s pos len = bytesAt t pos len := by
  refine List.ext_getElem? fun k => ?_
  rw [getElem?_bytesAt, getElem?_bytesAt]
  split_ifs with hk
  · exact h (pos + k) (by omega) (by omega)
  · rfl

theorem bytesAt_eq_take {n : Nat} (h : n ≤ len) : bytesAt s pos n = (bytesAt s pos len).take n := by
  refine List.ext_getElem? fun k => ?_
  rw [List.getElem?_take, getElem?_bytesAt, getElem?_bytesAt]
  split_ifs <;> first | rfl | omega

/-- What was written is read back. -/
theorem bytesAt_overwrite (h : pos + d.length ≤ s.size) :
    bytesAt (overwrite s pos d) pos d.length = d := by
  refine List.ext_getElem? fun k => ?_
  rw [getElem?_bytesAt]
  split_ifs with hk
  · exact getElem?_overwrite_add h hk
  · exact (List.getElem?_eq_none (by omega)).symm

theorem bytesAt_overwrite_of_disjoint {pos' : Nat}
    (h : pos' + len ≤ pos ∨ pos + d.length ≤ pos') :
    bytesAt (overwrite s pos d) pos' len = bytesAt s pos' len :=
  bytesAt_congr fun i h1 h2 => getElem?_overwrite_of_outside (by omega)

theorem leNat_leBytes_prefixSize {n : Nat} (h : n ≤ maxStorage) :
    leNat (leBytes prefixSize n) = n := by
  rw [leNat_leBytes]
  exact Nat.mod_eq_of_lt (by rw [maxStorage] at h; rw [prefixSize]; omega)

end MeterRadio.FrameRing
