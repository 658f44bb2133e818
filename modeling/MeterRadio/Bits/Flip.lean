import MeterRadio.Bits.Basic

/-!
# Flipped bits

Noise on the air turns single bits of a message around. `flipBits d positions` is the byte string in
which this has happened to the given bits.
-/

namespace MeterRadio

/-- The byte string with bit `i` turned around. -/
def flipBit (d : Bytes) (i : Nat) : Bytes :=
  Bytes.setBit d i (!Bytes.bit d i)

/-- The byte string with the bits at the positions turned around, one after the other. -/
def flipBits (d : Bytes) (positions : List Nat) : Bytes :=
  positions.foldl flipBit d

@[simp] theorem length_flipBits (d : Bytes) (positions : List Nat) :
    (flipBits d positions).length = d.length := by
  induction positions generalizing d with
  | nil => rfl
  | cons i positions ih =>
    rw [flipBits, List.foldl_cons]
    exact (ih _).trans (Bytes.length_setBit _ _ _)

theorem bit_flipBit {d : Bytes} {i : Nat} (hi : i < 8 * d.length) (j : Nat) :
    Bytes.bit (flipBit d i) j = (Bytes.bit d j ^^ decide (j = i)) := by
  rw [flipBit, Bytes.bit_setBit hi]
  by_cases h : j = i
  · simp [h]
  · simp [h]

/-- Distinct positions are turned around once each. -/
theorem bit_flipBits {d : Bytes} {positions : List Nat} (hdistinct : positions.Nodup)
    (hlt : ∀ i ∈ positions, i < 8 * d.length) (j : Nat) :
    Bytes.bit (flipBits d positions) j = (Bytes.bit d j ^^ decide (j ∈ positions)) := by
  induction positions generalizing d with
  | nil => simp [flipBits]
  | cons i positions ih =>
    rw [List.nodup_cons] at hdistinct
    have hlen : (flipBit d i).length = d.length := Bytes.length_setBit _ _ _
    have htail := ih (d := flipBit d i) hdistinct.2 fun k hk => by
      rw [hlen]
      exact hlt k (List.mem_cons_of_mem _ hk)
    rw [flipBits, List.foldl_cons]
    refine htail.trans ?_
    rw [bit_flipBit (hlt i List.mem_cons_self)]
    by_cases h : j = i
    · subst h
      simp [hdistinct.1]
    · simp [h]

end MeterRadio
