import Mathlib.Algebra.Ring.Nat
import MeterRadio.Proofs.Receiver.Captures
import MeterRadio.Proofs.Ring.Filling

/-!
# A receiver that is not polled

Until a new receiver is polled for the first time its ring fills up. Which frames the ring takes is then
a matter of their sizes alone: it takes them all exactly if they have room together
(`Filled.refused_eq_nil_iff`), and once it has refused one it refuses all that are as long.
-/

namespace MeterRadio.Receiver

open FrameRing (Filled stored)

variable {C α : Type} {c : Call C α} {used : Nat} {s : Stamped}

theorem ne_process_of_mem_samples {batch : List Bool} (h : c ∈ batch.map Call.sample) :
    c ≠ .process := by
  rintro rfl
  obtain ⟨value, -, hvalue⟩ := List.mem_map.mp h
  cases hvalue

/-- Bytes that the frames of messages take up in a ring. -/
def storedSize (messages : List Stamped) : Nat :=
  (messages.map fun s => stored s.frame).sum

theorem storedSize_append (messages more : List Stamped) :
    storedSize (messages ++ more) = storedSize messages + storedSize more := by
  rw [storedSize, List.map_append, List.sum_append, storedSize, storedSize]

theorem storedSize_singleton (s : Stamped) : storedSize [s] = stored s.frame := by
  rw [storedSize, List.map_singleton, List.sum_singleton]

theorem storedSize_le_of_mem {messages : List Stamped} (h : s ∈ messages) :
    stored s.frame ≤ storedSize messages := by
  obtain ⟨before, after, rfl⟩ := List.append_of_mem h
  rw [storedSize, List.map_append, List.map_cons, List.sum_append, List.sum_cons]
  omega

variable [Clock C] {r : Receiver C α} {calls : List (Call C α)}

theorem storedSize_found (r : Receiver C α) (calls : List (Call C α)) :
    storedSize (r.found calls) = storedSize (r.taken calls) + storedSize (r.refused calls) := by
  rw [← storedSize_append, storedSize, storedSize, ((r.perm_found calls).map _).sum_nat]

/-- What a call adds that is no poll. -/
theorem filled_call (h : Filled r.ring used) (hc : c ≠ .process) :
    Filled (r.call c).2.ring (used + storedSize (r.takenBy c)) ∧
      ∀ s ∈ r.refusedBy c, r.ring.capacity ≤ used + stored s.frame := by
  cases r.effect c with
  | quiet hq =>
    rw [hq.ring, takenBy, refusedBy, hq.found]
    exact ⟨h, fun s hs => absurd hs List.not_mem_nil⟩
  | finds s hs =>
    rw [hs.ring, takenBy, refusedBy, hs.found, List.filter_singleton, List.filter_singleton, takes]
    rcases Nat.lt_or_ge (used + stored s.frame) r.ring.capacity with hlt | hge
    · obtain ⟨hok, hfilled⟩ := h.push_of_lt s.frame_ne_nil hlt
      rw [hok]
      exact ⟨storedSize_singleton s ▸ hfilled, fun s hs => absurd hs List.not_mem_nil⟩
    · obtain ⟨hok, hfilled⟩ := h.push_of_ge s.frame_ne_nil hge
      rw [hok]
      refine ⟨hfilled, fun s' hs' => ?_⟩
      rw [List.mem_singleton.mp hs']
      exact hge
  | polls => exact absurd rfl hc
  | asks => exact ⟨⟨h.tail_eq, h.head_eq, h.used_lt⟩, fun s hs => absurd hs List.not_mem_nil⟩

/-- What is taken lies in the ring, and what is refused did not fit behind it. -/
theorem filled_run (h : Filled r.ring used) (hcalls : ∀ c ∈ calls, c ≠ .process) :
    Filled (r.run calls).2.ring (used + storedSize (r.taken calls)) ∧
      ∀ s ∈ r.refused calls, r.ring.capacity ≤ used + storedSize (r.taken calls) + stored s.frame := by
  induction calls generalizing r used with
  | nil => exact ⟨h, fun s hs => absurd hs List.not_mem_nil⟩
  | cons c calls ih =>
    rw [List.forall_mem_cons] at hcalls
    obtain ⟨hfilled, hnow⟩ := filled_call h hcalls.1
    obtain ⟨hrest, hlater⟩ := ih hfilled hcalls.2
    rw [taken_cons, refused_cons, storedSize_append, ← Nat.add_assoc]
    refine ⟨hrest, fun s hs => ?_⟩
    rcases List.mem_append.mp hs with hs | hs
    · have hfull := hnow s hs
      omega
    · rw [← capacity_call r c]
      exact hlater s hs

theorem refused_eq_nil_iff (h : Filled r.ring used) (hcalls : ∀ c ∈ calls, c ≠ .process) :
    r.refused calls = [] ↔ used + storedSize (r.found calls) < r.ring.capacity := by
  obtain ⟨hfilled, hrefused⟩ := filled_run h hcalls
  constructor
  · intro hall
    have hroom := hfilled.used_lt
    rw [capacity_run] at hroom
    rw [storedSize_found, hall]
    exact hroom
  · intro hroom
    rw [storedSize_found] at hroom
    refine List.eq_nil_iff_forall_not_mem.mpr fun s hs => ?_
    have hfull := hrefused s hs
    have hsize := storedSize_le_of_mem hs
    omega

/-- A message whose frame is as long as all others is the first to be refused. -/
theorem takes_eq_false (h : Filled r.ring used) (hcalls : ∀ c ∈ calls, c ≠ .process)
    (hlong : ∀ other ∈ r.found calls, stored other.frame ≤ stored s.frame)
    (hfull : r.ring.capacity ≤ used + storedSize (r.found calls) + stored s.frame) :
    (r.run calls).2.takes s = false := by
  obtain ⟨hfilled, hrefused⟩ := filled_run h hcalls
  refine (hfilled.push_of_ge s.frame_ne_nil ?_).1
  rw [capacity_run]
  by_cases hall : r.refused calls = []
  · rw [storedSize_found, hall] at hfull
    exact hfull
  · -- there was no room for one that is no longer
    obtain ⟨other, hmem⟩ := List.exists_mem_of_ne_nil _ hall
    have hfound := (r.perm_found calls).subset (List.mem_append_right _ hmem)
    exact Nat.le_trans (hrefused other hmem) (Nat.add_le_add_left (hlong other hfound) _)

end MeterRadio.Receiver
