import MeterRadio.Proofs.Ring.Queue

/-!
# Storage safety of a ring

No operation reads or writes outside the storage, and no frame is written over one that waits to be
read (`Safe`). The bounds follow from where frames are placed (`Fits`) and from the check that a
reader makes on every length it reads. That frames which wait are left alone needs more: they are all
*published*, they lie between `tail` and `head`, where `push` never writes.
-/

namespace MeterRadio.FrameRing

variable {r : FrameRing} {frame : Bytes} {q rest : List Bytes} {i : Nat}

/-- The ring after `k` frames have been removed. -/
def discard (r : FrameRing) : (k : Nat) → FrameRing
  | 0 => r
  | k + 1 => (r.pop none).2.discard k

/-- Byte `i` belongs to a frame that waits, to its length or to its content. -/
def Unread (r : FrameRing) (i : Nat) : Prop :=
  ∃ k start len, (r.discard k).front.value.1 = .frame start len ∧
    start ≤ i + prefixSize ∧ i < start + len

/-- No access of any operation leaves the storage or touches what waits to be read. -/
structure Safe (r : FrameRing) : Prop where
  head_lt : r.head < r.capacity
  tail_lt : r.tail < r.capacity
  /-- Every access lies inside the storage. -/
  inBounds : ∀ op, ∀ a ∈ (r.stepTraced op).accesses, a.InBounds r.capacity
  /-- The lengths that are read always lead to a frame. -/
  front_ne_broken : r.front.value.1 ≠ .broken
  /-- A frame that was taken does not make the ring look empty. -/
  head_ne_tail : ∀ frame, (r.push frame).1 = .ok () →
    (r.push frame).2.head ≠ (r.push frame).2.tail
  /-- Nothing is written over a frame that waits. -/
  not_writes : ∀ op i, r.Unread i → ∀ a ∈ (r.stepTraced op).accesses, ¬a.Writes i
  /-- The length of a frame that was taken is stored in full. -/
  stored_length : ∀ frame, (r.push frame).1 = .ok () →
    leNat (bytesAt (r.push frame).2.storage (r.place frame.length).start prefixSize) = frame.length

/-! ## Readers -/

/-- A read inside the storage. -/
def ReadWithin (size : Nat) (a : Access) : Prop :=
  ∃ pos len, a = .read pos len ∧ pos + len ≤ size

theorem ReadWithin.inBounds {size : Nat} {a : Access} (h : ReadWithin size a) :
    a.InBounds size := by
  obtain ⟨pos, len, rfl, hend⟩ := h
  exact hend

theorem ReadWithin.not_writes {size : Nat} {a : Access} (h : ReadWithin size a) : ¬a.Writes i := by
  obtain ⟨pos, len, rfl, -⟩ := h
  exact id

theorem readWithin_lengthAtTail {a : Access} (ha : a ∈ r.lengthAtTail.accesses) :
    ReadWithin r.capacity a := by
  rw [lengthAtTail] at ha
  split_ifs at ha with hroom
  · exact absurd ha List.not_mem_nil
  · exact ⟨r.tail, prefixSize, List.mem_singleton.mp ha, Nat.le_of_lt (Nat.lt_of_not_le hroom)⟩

theorem readWithin_front (h : Usable r.capacity) {a : Access} (ha : a ∈ r.front.accesses) :
    ReadWithin r.capacity a := by
  have hprefix : prefixSize < r.capacity := h.1
  rw [front] at ha
  split_ifs at ha with hcap he
  · exact absurd ha List.not_mem_nil
  · exact absurd ha List.not_mem_nil
  · rw [Traced.accesses_bind, List.mem_append] at ha
    rcases ha with ha | ha
    · exact readWithin_lengthAtTail ha
    · split_ifs at ha
      · dsimp only at ha
        split_ifs at ha
        · exact absurd ha List.not_mem_nil
        · exact ⟨0, prefixSize, List.mem_singleton.mp ha, by omega⟩
      · exact absurd ha List.not_mem_nil

theorem AtTail.end_le (h : AtTail r frame rest) :
    r.tail + prefixSize + frame.length ≤ r.capacity := by
  obtain ⟨older, stop, hlaid, hstop, -⟩ := h.laid
  exact Nat.le_trans hlaid.head_le hstop

/-- A reader looks for the oldest frame first. If what it does then stays inside that frame, it stays
inside the storage. -/
theorem readWithin_front_bind {α : Type} {f : Front × FrameRing → Traced α} (h : Holds r q)
    (hempty : (f (.empty, r)).accesses = [])
    (hframe : ∀ pos (frame : Bytes), pos + prefixSize + frame.length ≤ r.capacity →
      ∀ a ∈ (f (.frame (pos + prefixSize) frame.length, { r with tail := pos })).accesses,
        ReadWithin r.capacity a)
    {a : Access} (ha : a ∈ (r.front >>= f).accesses) : ReadWithin r.capacity a := by
  rw [Traced.accesses_bind, List.mem_append] at ha
  rcases ha with ha | ha
  · exact readWithin_front h.usable ha
  · cases q with
    | nil =>
      rw [h.front_nil, hempty] at ha
      exact absurd ha List.not_mem_nil
    | cons frame rest =>
      obtain ⟨pos, -, hat, hfront⟩ := h.front_cons
      rw [hfront] at ha
      exact hframe pos frame hat.end_le a ha

theorem readWithin_peekTraced (h : Holds r q) {a : Access} (ha : a ∈ r.peekTraced.accesses) :
    ReadWithin r.capacity a := by
  refine readWithin_front_bind h rfl (fun pos frame hend a ha => ?_) ha
  exact ⟨pos + prefixSize, frame.length, List.mem_singleton.mp ha, hend⟩

theorem readWithin_popTraced (h : Holds r q) {out : Option Bytes} {a : Access}
    (ha : a ∈ (r.popTraced out).accesses) : ReadWithin r.capacity a := by
  refine readWithin_front_bind h rfl (fun pos frame hend a ha => ?_) ha
  rcases out with _ | ⟨_ | ⟨b, out⟩⟩
  · exact absurd ha List.not_mem_nil
  · exact absurd ha List.not_mem_nil
  · have hmin := Nat.min_le_right (b :: out).length frame.length
    exact ⟨pos + prefixSize, min (b :: out).length frame.length, List.mem_singleton.mp ha, by omega⟩

theorem Holds.front_ne_broken (h : Holds r q) : r.front.value.1 ≠ .broken := by
  cases q with
  | nil =>
    rw [h.front_nil]
    exact Front.noConfusion
  | cons frame rest =>
    obtain ⟨pos, -, -, hfront⟩ := h.front_cons
    rw [hfront]
    exact Front.noConfusion

/-! ## The writer -/

/-- A sentinel is left at `head`, behind the only piece. -/
theorem Fits.sentinel_eq {p : Placement} {len pos : Nat} (hp : Fits r len p)
    (hpos : p.sentinel = some pos) :
    r.tail ≤ r.head ∧ pos = r.head ∧ r.head + prefixSize ≤ r.capacity := by
  cases hp with
  | between => exact absurd hpos (Option.some_ne_none pos).symm
  | behind => exact absurd hpos (Option.some_ne_none pos).symm
  | before hle hend =>
    have hif : (if r.head + prefixSize ≤ r.capacity then some r.head else none) = some pos := hpos
    split_ifs at hif with hroom
    exact ⟨hle, (Option.some.inj hif).symm, hroom⟩

/-- Every access of storing a frame lies where the frame goes, or is the sentinel at `head`. -/
theorem Fits.access {p : Placement} (hp : Fits r frame.length p) {a : Access}
    (ha : a ∈ (r.store p frame).accesses) :
    (p.start ≤ a.pos ∧ a.pos + a.len ≤ p.start + prefixSize + frame.length) ∨
      (r.tail ≤ r.head ∧ a.pos = r.head ∧ r.head + a.len ≤ r.capacity) := by
  have hlen : ∀ n, (leBytes prefixSize n).length = prefixSize := length_leBytes _
  have hall : a ∈ (leaveSentinel r.storage p.sentinel).accesses ++
      [.write p.start (leBytes prefixSize frame.length), .write (p.start + prefixSize) frame] := ha
  rcases List.mem_append.mp hall with ha | ha
  · cases hsent : p.sentinel with
    | none =>
      rw [hsent] at ha
      exact absurd ha List.not_mem_nil
    | some pos =>
      obtain ⟨hle, rfl, hroom⟩ := hp.sentinel_eq hsent
      rw [hsent] at ha
      obtain rfl := List.mem_singleton.mp ha
      refine Or.inr ⟨hle, rfl, ?_⟩
      show r.head + (leBytes prefixSize 0).length ≤ r.capacity
      rw [hlen]
      exact hroom
  · refine Or.inl ?_
    rcases List.mem_cons.mp ha with rfl | ha
    · refine ⟨Nat.le_refl _, ?_⟩
      show p.start + (leBytes prefixSize frame.length).length ≤ _
      rw [hlen]
      exact Nat.le_add_right _ _
    · obtain rfl := List.mem_singleton.mp ha
      exact ⟨Nat.le_add_right _ _, Nat.le_refl _⟩

/-- The accesses of `push` are those of storing the frame, if it is taken at all. -/
theorem accesses_pushTraced {a : Access}
    (ha : a ∈ (r.pushTraced frame).accesses) :
    Fits r frame.length (r.place frame.length) ∧
      a ∈ (r.store (r.place frame.length) frame).accesses := by
  rw [pushTraced] at ha
  split_ifs at ha with hcap hne
  · exact absurd ha List.not_mem_nil
  · exact absurd ha List.not_mem_nil
  · dsimp only at ha
    split_ifs at ha with hfull
    · exact absurd ha List.not_mem_nil
    · rw [Traced.accesses_bind, Traced.accesses_pure, List.append_nil] at ha
      exact ⟨fits_place (List.length_pos_iff.mpr hne) (Nat.le_of_not_lt hfull), ha⟩

theorem Fits.end_le {p : Placement} {len : Nat} (h : Holds r q) (hp : Fits r len p) :
    p.start + prefixSize + len ≤ r.capacity := by
  have htail := h.tail_lt
  have hlimit := r.limit_le
  cases hp with
  | between hlt hend => dsimp only; omega
  | behind hle hend => dsimp only; omega
  | before hle hend => dsimp only; omega

theorem inBounds_pushTraced (h : Holds r q) {a : Access}
    (ha : a ∈ (r.pushTraced frame).accesses) : a.InBounds r.capacity := by
  obtain ⟨hfits, ha⟩ := accesses_pushTraced ha
  rw [Access.InBounds]
  rcases hfits.access ha with ⟨-, hend⟩ | ⟨-, hpos, hend⟩
  · exact Nat.le_trans hend (hfits.end_le h)
  · rw [hpos]
    exact hend

/-- What is known when a frame was taken. -/
theorem eq_store_of_push_ok (h : (r.push frame).1 = .ok ()) :
    frame ≠ [] ∧ Fits r frame.length (r.place frame.length) ∧
      (r.push frame).2 = (r.store (r.place frame.length) frame).value := by
  rw [push, pushTraced] at h ⊢
  split_ifs at h ⊢ with hcap hne
  dsimp only at h ⊢
  split_ifs at h ⊢ with hfull
  exact ⟨hne, fits_place (List.length_pos_iff.mpr hne) (Nat.le_of_not_lt hfull), rfl⟩

theorem Holds.head_ne_tail (h : Holds r q) (hok : (r.push frame).1 = .ok ()) :
    (r.push frame).2.head ≠ (r.push frame).2.tail := by
  obtain ⟨hne, hfits, hstore⟩ := eq_store_of_push_ok hok
  have hholds := h.store hne hfits
  rw [hstore]
  intro he
  exact List.append_ne_nil_of_right_ne_nil q (List.cons_ne_nil frame [])
    (hholds.tail_eq_head_iff.mp he.symm)

theorem Holds.stored_length (h : Holds r q) (hok : (r.push frame).1 = .ok ()) :
    leNat (bytesAt (r.push frame).2.storage (r.place frame.length).start prefixSize) =
      frame.length := by
  obtain ⟨-, hfits, hstore⟩ := eq_store_of_push_ok hok
  rw [hstore]
  exact leNat_bytesAt_store h.usable (hfits.end_le h)

/-! ## Published bytes -/

/-- Byte `i` lies between `tail` and `head`. -/
def Published (r : FrameRing) (i : Nat) : Prop :=
  (r.tail ≤ r.head ∧ r.tail ≤ i ∧ i < r.head) ∨ (r.head < r.tail ∧ (i < r.head ∨ r.tail ≤ i))

theorem AtTail.published (h : AtTail r frame rest) (hi : r.tail ≤ i)
    (hi' : i < r.tail + prefixSize + frame.length) : Published r i := by
  obtain ⟨older, stop, hlaid, -, hhead⟩ := h.laid
  have hend := hlaid.head_le
  rw [Published]
  by_cases hle : r.tail ≤ r.head
  · have hstop := hhead hle
    exact Or.inl ⟨hle, hi, by omega⟩
  · exact Or.inr ⟨by omega, Or.inr hi⟩

/-- What is published after a frame was removed was so before. -/
theorem AtTail.published_of_removed (h : AtTail r frame rest)
    (hi : Published { r with tail := r.wrap (r.tail + prefixSize + frame.length) } i) :
    Published r i := by
  obtain ⟨older, stop, hlaid, hstop, hhead⟩ := h.laid
  have hend := hlaid.head_le
  have hlt := h.head_lt
  rw [Published] at hi ⊢
  simp only [wrap] at hi
  split_ifs at hi with he
  · omega
  · omega

/-- Looking for the oldest frame publishes nothing. -/
theorem published_of_settled {pos : Nat} (hpos : pos = r.tail ∨ pos = 0 ∧ r.head < r.tail)
    (hi : Published { r with tail := pos } i) : Published r i := by
  rcases hpos with rfl | ⟨rfl, hlt⟩
  · exact hi
  · rw [Published] at hi ⊢
    dsimp only at hi
    omega

theorem published_of_pop (h : Holds r q) {out : Option Bytes} (hi : Published (r.pop out).2 i) :
    Published r i := by
  cases q with
  | nil =>
    rw [h.pop_nil] at hi
    exact hi
  | cons frame rest =>
    obtain ⟨pos, hpos, hat, hpop⟩ := h.pop_cons out
    rw [hpop] at hi
    exact published_of_settled hpos (hat.published_of_removed hi)

/-- A frame that waits is published. -/
theorem Models.published_of_unread {q : FrameQueue} (h : Models r q) (hi : Unread r i) :
    Published r i := by
  obtain ⟨k, start, len, hfront, hstart, hend⟩ := hi
  -- a frame further behind is the oldest one once those before it are removed
  induction k generalizing r q with
  | zero =>
    have hholds := h.holds
    rw [discard] at hfront
    cases hq : q.frames with
    | nil =>
      rw [hq] at hholds
      rw [hholds.front_nil] at hfront
      exact absurd hfront Front.noConfusion
    | cons frame rest =>
      rw [hq] at hholds
      obtain ⟨pos, hpos, hat, hfront'⟩ := hholds.front_cons
      rw [hfront'] at hfront
      obtain ⟨rfl, rfl⟩ := Front.frame.inj hfront
      refine published_of_settled hpos (hat.published ?_ hend)
      show pos ≤ i
      omega
  | succ k ih => exact published_of_pop h.holds (ih (h.pop none).2 hfront)

/-- Nothing that is published is written over. -/
theorem Fits.not_writes {p : Placement} (hp : Fits r frame.length p) (hi : Published r i)
    {a : Access} (ha : a ∈ (r.store p frame).accesses) : ¬a.Writes i := by
  intro hw
  have hin : a.pos ≤ i ∧ i < a.pos + a.len := by
    cases a with
    | read pos len => exact absurd hw id
    | write pos d => exact hw
  rw [Published] at hi
  -- a frame goes where nothing is published, and the sentinel to `head`, just behind it
  rcases hp.access ha with ⟨hstart, hend⟩ | ⟨hle, hpos, -⟩
  · cases hp with
    | between hlt hfit => dsimp only at hstart hend; omega
    | behind hle hfit => dsimp only at hstart hend; omega
    | before hle hfit => dsimp only at hstart hend; omega
  · omega

/-! ## All operations -/

/-- An operation other than a successful `push` only reads. -/
theorem access_stepTraced (h : Holds r q) {op : Op} {a : Access}
    (ha : a ∈ (r.stepTraced op).accesses) :
    ReadWithin r.capacity a ∨ ∃ frame, a ∈ (r.pushTraced frame).accesses := by
  cases op with
  | push frame =>
    rw [stepTraced, Traced.accesses_bind, Traced.accesses_pure, List.append_nil] at ha
    exact Or.inr ⟨frame, ha⟩
  | peek =>
    rw [stepTraced, Traced.accesses_bind, Traced.accesses_pure, List.append_nil] at ha
    exact Or.inl (readWithin_peekTraced h ha)
  | pop out =>
    rw [stepTraced, Traced.accesses_bind, Traced.accesses_pure, List.append_nil] at ha
    exact Or.inl (readWithin_popTraced h ha)
  | freeSpace => exact absurd ha List.not_mem_nil
  | isEmpty => exact absurd ha List.not_mem_nil
  | takeOverflow => exact absurd ha List.not_mem_nil

theorem Models.safe {q : FrameQueue} (h : Models r q) : Safe r where
  head_lt := h.holds.head_lt
  tail_lt := h.holds.tail_lt
  inBounds op a ha := by
    rcases access_stepTraced h.holds ha with hread | ⟨frame, ha⟩
    · exact hread.inBounds
    · exact inBounds_pushTraced h.holds ha
  front_ne_broken := h.holds.front_ne_broken
  head_ne_tail _ hok := h.holds.head_ne_tail hok
  not_writes op i hi a ha := by
    rcases access_stepTraced h.holds ha with hread | ⟨frame, ha⟩
    · exact hread.not_writes
    · obtain ⟨hfits, ha⟩ := accesses_pushTraced ha
      exact hfits.not_writes (h.published_of_unread hi) ha
  stored_length _ hok := h.holds.stored_length hok

/-- **A ring stays inside its storage.** Over usable storage, after any operations, every access of
the next operation is in bounds, nothing is written over a frame that waits, and the lengths that
are read back are the ones that were stored. -/
theorem safe_run {storage : Bytes} (h : Usable storage.length) (ops : List Op) :
    ((ofStorage storage).run ops).2.capacity = storage.length ∧
      Safe ((ofStorage storage).run ops).2 :=
  ⟨(capacity_run _ ops).trans (capacity_ofStorage h), ((models_ofStorage h).run ops).2.safe⟩

/-- A ring of nine bytes is safe after its first frame has been taken out. -/
theorem safe_run_nine :
    Usable (List.replicate 9 (0xEE : UInt8)).length ∧
      Safe ((ofStorage (List.replicate 9 0xEE)).run [.push [1, 2, 3, 4], .pop none]).2 :=
  ⟨by decide, (safe_run (by decide) [.push [1, 2, 3, 4], .pop none]).2⟩

end MeterRadio.FrameRing
