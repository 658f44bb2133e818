import MeterRadio.Proofs.Ring.Storage

/-!
# How frames lie in a ring

`Holds r q` is the invariant of a ring: the frames `q`, the oldest first, lie in its storage between
`tail` and `head`. They lie in one piece (`Straight`), or in two pieces of which the second one is at
the start of the storage (`Wrapped`). A reader finds the way from the first piece to the second by
the physical end of the storage, by its being too near for a frame, or by a sentinel.

`Holds.front_cons` and `Holds.store` say what reading and writing do to this invariant.
-/

namespace MeterRadio.FrameRing

variable {s t : Array UInt8} {r : FrameRing} {frame : Bytes} {frames q rest : List Bytes}
  {pos stop : Nat}

/-! ## Frames in one piece -/

/-- The frames lie one behind the other from `pos` to `stop`, each one behind its length. -/
def Laid (s : Array UInt8) : (pos : Nat) → (frames : List Bytes) → (stop : Nat) → Prop
  | pos, [], stop => pos = stop
  | pos, frame :: frames, stop =>
    frame ≠ [] ∧ leNat (bytesAt s pos prefixSize) = frame.length ∧
      bytesAt s (pos + prefixSize) frame.length = frame ∧
      Laid s (pos + prefixSize + frame.length) frames stop

theorem Laid.le (h : Laid s pos frames stop) : pos ≤ stop := by
  induction frames generalizing pos with
  | nil => exact Nat.le_of_eq h
  | cons frame frames ih =>
    have := ih h.2.2.2
    omega

theorem Laid.head_le (h : Laid s pos (frame :: frames) stop) :
    pos + prefixSize + frame.length ≤ stop :=
  h.2.2.2.le

theorem Laid.length_pos (h : Laid s pos (frame :: frames) stop) : 0 < frame.length :=
  List.length_pos_iff.mpr h.1

/-- Every frame takes more than one byte. -/
theorem Laid.length_le (h : Laid s pos frames stop) : pos + frames.length ≤ stop := by
  induction frames generalizing pos with
  | nil => exact Nat.le_of_eq h
  | cons frame frames ih =>
    have hpos := h.length_pos
    have hrest := ih h.2.2.2
    rw [List.length_cons]
    omega

theorem Laid.congr (hst : ∀ i, pos ≤ i → i < stop → t[i]? = s[i]?) (h : Laid s pos frames stop) :
    Laid t pos frames stop := by
  induction frames generalizing pos with
  | nil => exact h
  | cons frame frames ih =>
    have hle := h.head_le
    obtain ⟨hne, hlen, hframe, hrest⟩ := h
    refine ⟨hne, ?_, ?_, ih (fun i h1 h2 => hst i (by omega) h2) hrest⟩
    · rw [bytesAt_congr fun i h1 h2 => hst i h1 (by omega)]
      exact hlen
    · rw [bytesAt_congr fun i h1 h2 => hst i (by omega) (by omega)]
      exact hframe

theorem Laid.snoc (h : Laid s pos frames stop) (hne : frame ≠ [])
    (hlen : leNat (bytesAt s stop prefixSize) = frame.length)
    (hframe : bytesAt s (stop + prefixSize) frame.length = frame) :
    Laid s pos (frames ++ [frame]) (stop + prefixSize + frame.length) := by
  induction frames generalizing pos with
  | nil =>
    obtain rfl : pos = stop := h
    exact ⟨hne, hlen, hframe, rfl⟩
  | cons f frames ih =>
    obtain ⟨hf, hflen, hfbytes, hrest⟩ := h
    exact ⟨hf, hflen, hfbytes, ih hrest⟩

/-! ## The invariant -/

/-- A reader that comes to `pos` goes on at the start of the storage. -/
def WrapsAt (s : Array UInt8) (pos : Nat) : Prop :=
  s.size ≤ pos + prefixSize ∨ leNat (bytesAt s pos prefixSize) = 0

/-- The frames lie in one piece. -/
structure Straight (r : FrameRing) (q : List Bytes) : Prop where
  tail_le : r.tail ≤ r.head
  laid : Laid r.storage r.tail q r.head

/-- The older frames lie from `tail` to `stop` and the newer ones at the start of the storage. Where
the first piece does not end with the storage, there is at least one newer frame: only for its sake
was the rest of the storage given up. -/
structure Wrapped (r : FrameRing) (older newer : List Bytes) (stop : Nat) : Prop where
  head_lt : r.head < r.tail
  stop_le : stop ≤ r.capacity
  older_laid : Laid r.storage r.tail older stop
  newer_laid : Laid r.storage 0 newer r.head
  wraps : stop = r.capacity ∨ newer ≠ [] ∧ WrapsAt r.storage stop

/-- The ring holds the frames `q`, the oldest first. -/
structure Holds (r : FrameRing) (q : List Bytes) : Prop where
  usable : Usable r.capacity
  head_lt : r.head < r.capacity
  tail_lt : r.tail < r.capacity
  layout : Straight r q ∨ ∃ older newer stop, q = older ++ newer ∧ Wrapped r older newer stop

theorem Usable.capacity_pos (h : Usable r.capacity) : 0 < r.capacity :=
  Nat.lt_trans (Nat.zero_lt_succ 1) h.1

theorem wrap_of_lt (h : pos < r.capacity) : r.wrap pos = pos :=
  if_neg (Nat.ne_of_lt h)

theorem wrap_capacity (h : pos = r.capacity) : r.wrap pos = 0 :=
  if_pos h

theorem capacity_ofCapacity {size : Nat} (h : Usable size) : (ofCapacity size).capacity = size := by
  simp [ofCapacity, capacity, h]

theorem capacity_ofStorage {storage : Bytes} (h : Usable storage.length) :
    (ofStorage storage).capacity = storage.length :=
  capacity_ofCapacity h

theorem holds_ofCapacity {size : Nat} (h : Usable size) : Holds (ofCapacity size) [] := by
  have hcap := capacity_ofCapacity h
  have hpos : 0 < size := Nat.lt_trans (Nat.zero_lt_succ 1) h.1
  exact
    { usable := by rw [hcap]; exact h
      head_lt := by rw [hcap]; exact hpos
      tail_lt := by rw [hcap]; exact hpos
      layout := Or.inl ⟨Nat.le_refl 0, rfl⟩ }

/-- A new ring holds nothing, whatever its storage held before. -/
theorem holds_ofStorage {storage : Bytes} (h : Usable storage.length) :
    Holds (ofStorage storage) [] :=
  holds_ofCapacity h

theorem Holds.congr_overflow (h : Holds r q) (n : UInt32) : Holds { r with overflow := n } q := by
  obtain ⟨husable, hhead, htail, ⟨hle, hlaid⟩ | ⟨older, newer, stop, hq, hw⟩⟩ := h
  · exact ⟨husable, hhead, htail, Or.inl ⟨hle, hlaid⟩⟩
  · exact ⟨husable, hhead, htail, Or.inr ⟨older, newer, stop, hq,
      ⟨hw.head_lt, hw.stop_le, hw.older_laid, hw.newer_laid, hw.wraps⟩⟩⟩

/-- The indices meet exactly in an empty ring. -/
theorem Holds.tail_eq_head_iff (h : Holds r q) : r.tail = r.head ↔ q = [] := by
  rcases h.layout with ⟨hle, hlaid⟩ | ⟨older, newer, stop, rfl, hw⟩
  · cases q with
    | nil => exact ⟨fun _ => rfl, fun _ => hlaid⟩
    | cons frame rest =>
      have hend := hlaid.head_le
      have hpos := hlaid.length_pos
      exact ⟨fun he => by omega, fun he => absurd he (List.cons_ne_nil _ _)⟩
  · have hlt := hw.head_lt
    refine ⟨fun he => by omega, fun hnil => ?_⟩
    obtain ⟨rfl, rfl⟩ := List.append_eq_nil_iff.mp hnil
    have hstop : r.tail = stop := hw.older_laid
    have htail := h.tail_lt
    rcases hw.wraps with he | ⟨hne, -⟩
    · omega
    · exact absurd rfl hne

theorem Holds.length_le (h : Holds r q) : q.length ≤ r.capacity := by
  have hhead := h.head_lt
  rcases h.layout with ⟨hle, hlaid⟩ | ⟨older, newer, stop, rfl, hw⟩
  · have := hlaid.length_le
    omega
  · have hlt := hw.head_lt
    have hstop := hw.stop_le
    have holder := hw.older_laid.length_le
    have hnewer := hw.newer_laid.length_le
    rw [List.length_append]
    omega

/-! ## The oldest frame -/

/-- The oldest frame lies right at `tail`. -/
structure AtTail (r : FrameRing) (frame : Bytes) (rest : List Bytes) : Prop where
  usable : Usable r.capacity
  head_lt : r.head < r.capacity
  tail_lt : r.tail < r.capacity
  layout : Straight r (frame :: rest) ∨
    ∃ older newer stop, rest = older ++ newer ∧ Wrapped r (frame :: older) newer stop

theorem AtTail.holds (h : AtTail r frame rest) : Holds r (frame :: rest) := by
  obtain ⟨husable, hhead, htail, hs | ⟨older, newer, stop, rfl, hw⟩⟩ := h
  · exact ⟨husable, hhead, htail, Or.inl hs⟩
  · exact ⟨husable, hhead, htail, Or.inr ⟨frame :: older, newer, stop, rfl, hw⟩⟩

/-- The piece that starts with the oldest frame. -/
theorem AtTail.laid (h : AtTail r frame rest) :
    ∃ older stop, Laid r.storage r.tail (frame :: older) stop ∧ stop ≤ r.capacity ∧
      (r.tail ≤ r.head → stop ≤ r.head) := by
  have hhead := h.head_lt
  rcases h.layout with hs | ⟨older, newer, stop, -, hw⟩
  · exact ⟨rest, r.head, hs.laid, by omega, fun _ => Nat.le_refl _⟩
  · have hlt := hw.head_lt
    exact ⟨older, stop, hw.older_laid, hw.stop_le, fun hle => by omega⟩

theorem AtTail.front (h : AtTail r frame rest) :
    r.front.value = (.frame (r.tail + prefixSize) frame.length, r) := by
  obtain ⟨older, stop, hlaid, hstop, -⟩ := h.laid
  have hend := hlaid.head_le
  have hpos := hlaid.length_pos
  have hcap : ¬r.capacity = 0 := by omega
  have hne : ¬r.tail = r.head := fun he =>
    absurd (h.holds.tail_eq_head_iff.mp he) (List.cons_ne_nil _ _)
  have hroom : ¬r.capacity ≤ r.tail + prefixSize := by omega
  have hread : r.lengthAtTail.value = frame.length := by
    rw [lengthAtTail, if_neg hroom]
    exact hlaid.2.1
  have hlen : ¬frame.length = 0 := by omega
  have hfits : ¬(frame.length = 0 ∨ r.capacity < r.tail + prefixSize + frame.length) := by omega
  rw [FrameRing.front, if_neg hcap, if_neg hne]
  simp only [Traced.value_bind, hread, if_neg hlen, Traced.value_pure, frontAt, if_neg hfits]

theorem AtTail.removed (h : AtTail r frame rest) :
    Holds { r with tail := r.wrap (r.tail + prefixSize + frame.length) } rest := by
  obtain ⟨husable, hhead, htail, ⟨hle, hlaid⟩ | ⟨older, newer, stop, rfl, hw⟩⟩ := h
  · have hend := hlaid.head_le
    rw [wrap_of_lt (Nat.lt_of_le_of_lt hend hhead)]
    exact ⟨husable, hhead, Nat.lt_of_le_of_lt hend hhead, Or.inl ⟨hend, hlaid.2.2.2⟩⟩
  · have hend := hw.older_laid.head_le
    have hlt := hw.head_lt
    have hstop := hw.stop_le
    by_cases he : r.tail + prefixSize + frame.length = r.capacity
    · -- the first piece ends with this frame and with the storage
      have holder : older = [] := by
        cases older with
        | nil => rfl
        | cons f older =>
          have hend' := Laid.head_le hw.older_laid.2.2.2
          have hpos' := Laid.length_pos hw.older_laid.2.2.2
          omega
      rw [wrap_capacity he, holder, List.nil_append]
      exact ⟨husable, hhead, Usable.capacity_pos husable, Or.inl ⟨Nat.zero_le _, hw.newer_laid⟩⟩
    · have hnext : r.tail + prefixSize + frame.length < r.capacity := by omega
      rw [wrap_of_lt hnext]
      have hlt' : r.head < r.tail + prefixSize + frame.length := by omega
      exact ⟨husable, hhead, hnext, Or.inr ⟨older, newer, stop, rfl,
        ⟨hlt', hstop, hw.older_laid.2.2.2, hw.newer_laid, hw.wraps⟩⟩⟩

/-- Where the first piece has been read to its end, the oldest frame lies at the start. -/
theorem Wrapped.atTail_zero {newer : List Bytes} (h : Holds r (frame :: newer))
    (hw : Wrapped r [] (frame :: newer) stop) : AtTail { r with tail := 0 } frame newer :=
  ⟨h.usable, h.head_lt, Usable.capacity_pos h.usable, Or.inl ⟨Nat.zero_le _, hw.newer_laid⟩⟩

/-- Looking for the oldest frame settles `tail` on it, which never fails. -/
theorem Holds.front_cons (h : Holds r (frame :: rest)) :
    ∃ pos, (pos = r.tail ∨ pos = 0 ∧ r.head < r.tail) ∧ AtTail { r with tail := pos } frame rest ∧
      r.front.value = (.frame (pos + prefixSize) frame.length, { r with tail := pos }) := by
  rcases h.layout with hs | ⟨older, newer, stop, hq, hw⟩
  · have hat : AtTail r frame rest := ⟨h.usable, h.head_lt, h.tail_lt, Or.inl hs⟩
    exact ⟨r.tail, Or.inl rfl, hat, hat.front⟩
  · cases older with
    | cons f older =>
      obtain ⟨rfl, rfl⟩ := List.cons.inj hq
      have hat : AtTail r frame (older ++ newer) :=
        ⟨h.usable, h.head_lt, h.tail_lt, Or.inr ⟨older, newer, stop, rfl, hw⟩⟩
      exact ⟨r.tail, Or.inl rfl, hat, hat.front⟩
    | nil =>
      -- the first piece has been read to its end, where the reader goes on at the start
      obtain rfl : frame :: rest = newer := hq
      obtain rfl : r.tail = stop := hw.older_laid
      have hat := hw.atTail_zero h
      have htail := h.tail_lt
      have hlt := hw.head_lt
      have hcap : ¬r.capacity = 0 := by omega
      have hne : ¬r.tail = r.head := by omega
      have hlen : r.lengthAtTail.value = 0 := by
        rw [lengthAtTail]
        split_ifs with hroom
        · rfl
        · rcases hw.wraps with he | ⟨-, he | he⟩
          · omega
          · exact absurd he hroom
          · exact he
      have hend := hw.newer_laid.head_le
      have hpos := hw.newer_laid.length_pos
      have hne0 : ¬(0 : Nat) = r.head := by omega
      have hread : (({ r with tail := 0 } : FrameRing).readLength 0).value = frame.length :=
        hw.newer_laid.2.1
      have hfits : ¬(frame.length = 0 ∨
          ({ r with tail := 0 } : FrameRing).capacity < 0 + prefixSize + frame.length) := by
        have hcap0 : ({ r with tail := 0 } : FrameRing).capacity = r.capacity := rfl
        omega
      refine ⟨0, Or.inr ⟨rfl, hlt⟩, hat, ?_⟩
      rw [FrameRing.front, if_neg hcap, if_neg hne]
      simp only [Traced.value_bind, hlen, if_true, if_neg hne0, hread, Traced.value_pure, frontAt,
        if_neg hfits]

/-- In an empty ring there is no oldest frame, and nothing moves. -/
theorem Holds.front_nil (h : Holds r []) : r.front.value = (.empty, r) := by
  have hcap : ¬r.capacity = 0 := by have := h.tail_lt; omega
  have he : r.tail = r.head := h.tail_eq_head_iff.mpr rfl
  rw [FrameRing.front, if_neg hcap, if_pos he, Traced.value_pure]

/-! ## Free space -/

theorem limit_le (r : FrameRing) : r.limit ≤ r.capacity := by
  rw [limit]
  split_ifs <;> omega

theorem limit_of_pos (h : 0 < r.tail) : r.limit = r.capacity :=
  if_neg (Nat.ne_of_gt h)

/-- There is room behind the only piece and before it. -/
theorem freeSpace_of_le (hcap : 0 < r.capacity) (hle : r.tail ≤ r.head) :
    r.freeSpace = max (r.limit - (r.head + prefixSize)) (r.tail - (prefixSize + 1)) := by
  rw [freeSpace, if_neg (Nat.ne_of_gt hcap), if_pos hle]

/-- There is room between the two pieces. -/
theorem freeSpace_of_lt (hcap : 0 < r.capacity) (hlt : r.head < r.tail) :
    r.freeSpace = r.tail - r.head - (prefixSize + 1) := by
  rw [freeSpace, if_neg (Nat.ne_of_gt hcap), if_neg (Nat.not_le.mpr hlt)]

/-! ## Storing a frame -/

/-- Where there is room for `len` bytes. -/
inductive Fits (r : FrameRing) (len : Nat) : Placement → Prop
  /-- Between the two pieces. -/
  | between (hlt : r.head < r.tail) (hend : r.head + prefixSize + len < r.tail) :
      Fits r len { sentinel := none, start := r.head }
  /-- Behind the only piece. -/
  | behind (hle : r.tail ≤ r.head) (hend : r.head + prefixSize + len ≤ r.limit) :
      Fits r len { sentinel := none, start := r.head }
  /-- Before the only piece, which becomes the first of two. -/
  | before (hle : r.tail ≤ r.head) (hend : prefixSize + len < r.tail) :
      Fits r len
        { sentinel := if r.head + prefixSize ≤ r.capacity then some r.head else none, start := 0 }

/-- A frame that is no longer than the free space fits where it is placed. -/
theorem fits_place {len : Nat} (hpos : 0 < len) (hlen : len ≤ r.freeSpace) :
    Fits r len (r.place len) := by
  have hcap : 0 < r.capacity := Nat.pos_of_ne_zero fun h0 => by
    rw [freeSpace, if_pos h0] at hlen
    omega
  rw [place]
  by_cases hle : r.tail ≤ r.head
  · rw [freeSpace_of_le hcap hle] at hlen
    by_cases hend : r.head + prefixSize + len ≤ r.limit
    · rw [if_pos (Or.inr hend)]
      exact Fits.behind hle hend
    · have hback : ¬(r.head < r.tail ∨ r.head + prefixSize + len ≤ r.limit) := by omega
      rw [if_neg hback]
      exact Fits.before hle (by omega)
  · have hlt := Nat.lt_of_not_le hle
    rw [freeSpace_of_lt hcap hlt] at hlen
    rw [if_pos (Or.inl hlt)]
    exact Fits.between hlt (by omega)

@[simp] theorem size_leaveSentinel (s : Array UInt8) (place : Option Nat) :
    (leaveSentinel s place).value.size = s.size := by
  cases place with
  | none => rfl
  | some pos => exact size_overwrite _ _ _

section Store

variable {sentinel : Option Nat} {start : Nat}

theorem value_store (r : FrameRing) (sentinel : Option Nat) (start : Nat) (frame : Bytes) :
    (r.store ⟨sentinel, start⟩ frame).value =
      { storage := overwrite (overwrite (leaveSentinel r.storage sentinel).value start
          (leBytes prefixSize frame.length)) (start + prefixSize) frame
        head := r.wrap (start + prefixSize + frame.length)
        tail := r.tail
        overflow := r.overflow } := rfl

@[simp] theorem capacity_store (r : FrameRing) (p : Placement) (frame : Bytes) :
    (r.store p frame).value.capacity = r.capacity := by
  rw [capacity, value_store, size_overwrite, size_overwrite, size_leaveSentinel, capacity]

theorem bytesAt_store_frame (hend : start + prefixSize + frame.length ≤ r.capacity) :
    bytesAt (r.store ⟨sentinel, start⟩ frame).value.storage (start + prefixSize) frame.length =
      frame := by
  rw [value_store]
  exact bytesAt_overwrite (by rw [size_overwrite, size_leaveSentinel]; exact hend)

theorem leNat_bytesAt_store (husable : Usable r.capacity)
    (hend : start + prefixSize + frame.length ≤ r.capacity) :
    leNat (bytesAt (r.store ⟨sentinel, start⟩ frame).value.storage start prefixSize) =
      frame.length := by
  have hcap : r.storage.size = r.capacity := rfl
  have hlen : (leBytes prefixSize frame.length).length = prefixSize := length_leBytes _ _
  have hback : bytesAt (overwrite (leaveSentinel r.storage sentinel).value start
      (leBytes prefixSize frame.length)) start (leBytes prefixSize frame.length).length =
        leBytes prefixSize frame.length :=
    bytesAt_overwrite (by rw [hlen, size_leaveSentinel]; omega)
  have hmax := husable.2
  rw [hlen] at hback
  rw [value_store, bytesAt_overwrite_of_disjoint (Or.inl (Nat.le_refl _)), hback]
  exact leNat_leBytes_prefixSize (by omega)

theorem getElem?_store {i : Nat} (hout : i < start ∨ start + prefixSize + frame.length ≤ i)
    (hsent : ∀ pos, sentinel = some pos → i < pos ∨ pos + prefixSize ≤ i) :
    (r.store ⟨sentinel, start⟩ frame).value.storage[i]? = r.storage[i]? := by
  have hlen : (leBytes prefixSize frame.length).length = prefixSize := length_leBytes _ _
  rw [value_store, getElem?_overwrite_of_outside (by omega),
    getElem?_overwrite_of_outside (by rw [hlen]; omega)]
  cases sentinel with
  | none => rfl
  | some pos => exact getElem?_overwrite_of_outside (hsent pos rfl)

theorem leNat_bytesAt_store_sentinel (hend : pos + prefixSize ≤ r.capacity)
    (hout : pos + prefixSize ≤ start ∨ start + prefixSize + frame.length ≤ pos) :
    leNat (bytesAt (r.store ⟨some pos, start⟩ frame).value.storage pos prefixSize) = 0 := by
  have hlen : ∀ n, (leBytes prefixSize n).length = prefixSize := length_leBytes _
  have hback : bytesAt (overwrite r.storage pos (leBytes prefixSize 0)) pos
      (leBytes prefixSize 0).length = leBytes prefixSize 0 :=
    bytesAt_overwrite (by rw [hlen]; exact hend)
  rw [hlen] at hback
  rw [value_store, bytesAt_overwrite_of_disjoint (by omega),
    bytesAt_overwrite_of_disjoint (by rw [hlen]; omega)]
  show leNat (bytesAt (overwrite r.storage pos (leBytes prefixSize 0)) pos prefixSize) = 0
  rw [hback, leNat_leBytes, Nat.zero_mod]

end Store

/-- A frame between the two pieces makes the second one longer. -/
theorem Holds.store_between (h : Holds r q) (hne : frame ≠ []) (hlt : r.head < r.tail)
    (hend : r.head + prefixSize + frame.length < r.tail) :
    Holds (r.store ⟨none, r.head⟩ frame).value (q ++ [frame]) := by
  have htail := h.tail_lt
  have hcap := capacity_store r ⟨none, r.head⟩ frame
  have hnext : r.head + prefixSize + frame.length < r.capacity := by omega
  have hhead : (r.store ⟨none, r.head⟩ frame).value.head = r.head + prefixSize + frame.length :=
    wrap_of_lt hnext
  have hkeep (i : Nat) (hout : i < r.head ∨ r.head + prefixSize + frame.length ≤ i) :
      (r.store ⟨none, r.head⟩ frame).value.storage[i]? = r.storage[i]? :=
    getElem?_store hout (by simp)
  obtain ⟨hle, -⟩ | ⟨older, newer, stop, rfl, hw⟩ := h.layout
  · omega
  have hstop := hw.older_laid.le
  refine ⟨by rw [hcap]; exact h.usable, by rw [hhead, hcap]; omega, by rw [hcap]; exact htail,
    Or.inr ⟨older, newer ++ [frame], stop, List.append_assoc _ _ _, ?_⟩⟩
  refine ⟨by rw [hhead]; exact hend, by rw [hcap]; exact hw.stop_le, ?_, ?_, ?_⟩
  · exact hw.older_laid.congr fun i h1 h2 => hkeep i (Or.inr (Nat.le_trans (Nat.le_of_lt hend) h1))
  · rw [hhead]
    exact (hw.newer_laid.congr fun i h1 h2 => hkeep i (Or.inl h2)).snoc hne
      (leNat_bytesAt_store h.usable (by omega)) (bytesAt_store_frame (by omega))
  · rcases hw.wraps with he | ⟨-, he | he⟩
    · exact Or.inl (by rw [hcap]; exact he)
    · exact Or.inr ⟨by simp, Or.inl (by rw [← capacity, hcap]; exact he)⟩
    · refine Or.inr ⟨by simp, Or.inr ?_⟩
      rw [bytesAt_congr fun i h1 h2 => hkeep i (Or.inr (by omega))]
      exact he

/-- A frame behind the only piece makes it longer. If it ends with the storage, `head` goes to the
start, where `tail` must not be. -/
theorem Holds.store_behind (h : Holds r q) (hne : frame ≠ []) (hle : r.tail ≤ r.head)
    (hend : r.head + prefixSize + frame.length ≤ r.limit) :
    Holds (r.store ⟨none, r.head⟩ frame).value (q ++ [frame]) := by
  have htail := h.tail_lt
  have hlimit := r.limit_le
  have hcap := capacity_store r ⟨none, r.head⟩ frame
  have hhead : (r.store ⟨none, r.head⟩ frame).value.head =
      r.wrap (r.head + prefixSize + frame.length) := rfl
  obtain ⟨-, hlaid⟩ | ⟨older, newer, stop, -, hw⟩ := h.layout
  swap
  · have := hw.head_lt
    omega
  have hall : Laid (r.store ⟨none, r.head⟩ frame).value.storage r.tail (q ++ [frame])
      (r.head + prefixSize + frame.length) :=
    (hlaid.congr fun i h1 h2 => getElem?_store (Or.inl h2) (by simp)).snoc hne
      (leNat_bytesAt_store h.usable (by omega)) (bytesAt_store_frame (by omega))
  by_cases he : r.head + prefixSize + frame.length = r.capacity
  · have htail0 : r.tail ≠ 0 := fun h0 => by
      rw [limit, if_pos h0] at hend
      omega
    rw [wrap_capacity he] at hhead
    refine ⟨by rw [hcap]; exact h.usable, by rw [hhead, hcap]; omega, by rw [hcap]; exact htail,
      Or.inr ⟨q ++ [frame], [], r.capacity, (List.append_nil _).symm, ?_⟩⟩
    exact ⟨by rw [hhead]; exact Nat.pos_of_ne_zero htail0, Nat.le_of_eq hcap.symm,
      by rw [← he]; exact hall,
      hhead.symm, Or.inl hcap.symm⟩
  · have hnext : r.head + prefixSize + frame.length < r.capacity := by omega
    rw [wrap_of_lt hnext] at hhead
    refine ⟨by rw [hcap]; exact h.usable, by rw [hhead, hcap]; omega, by rw [hcap]; exact htail,
      Or.inl ⟨?_, by rw [hhead]; exact hall⟩⟩
    rw [hhead]
    show r.tail ≤ r.head + prefixSize + frame.length
    omega

/-- A frame before the only piece starts a second one. -/
theorem Holds.store_before (h : Holds r q) (hne : frame ≠ []) (hle : r.tail ≤ r.head)
    (hend : prefixSize + frame.length < r.tail) :
    Holds (r.store ⟨if r.head + prefixSize ≤ r.capacity then some r.head else none, 0⟩ frame).value
      (q ++ [frame]) := by
  have htail := h.tail_lt
  generalize hsent : (if r.head + prefixSize ≤ r.capacity then some r.head else none) = sentinel
  have hcap := capacity_store r ⟨sentinel, 0⟩ frame
  have hnext : 0 + prefixSize + frame.length < r.capacity := by omega
  have hhead : (r.store ⟨sentinel, 0⟩ frame).value.head = 0 + prefixSize + frame.length :=
    wrap_of_lt hnext
  obtain ⟨-, hlaid⟩ | ⟨older, newer, stop, -, hw⟩ := h.layout
  swap
  · have := hw.head_lt
    omega
  refine ⟨by rw [hcap]; exact h.usable, by rw [hhead, hcap]; omega, by rw [hcap]; exact htail,
    Or.inr ⟨q, [frame], r.head, rfl, ?_⟩⟩
  refine ⟨?_, by rw [hcap]; exact Nat.le_of_lt h.head_lt, ?_, ?_, ?_⟩
  · rw [hhead]
    show 0 + prefixSize + frame.length < r.tail
    omega
  -- the older frames lie behind the new one and before the sentinel
  · refine hlaid.congr fun i h1 h2 => getElem?_store (Or.inr ?_) fun pos hpos => Or.inl ?_
    · have hi : r.tail ≤ i := h1
      omega
    · rw [← hsent] at hpos
      split_ifs at hpos
      exact Option.some.inj hpos ▸ h2
  · exact ⟨hne, leNat_bytesAt_store h.usable (by omega), bytesAt_store_frame (by omega), hhead.symm⟩
  -- without a sentinel the end of the storage is so near that no reader looks for one
  · refine Or.inr ⟨List.cons_ne_nil _ _, ?_⟩
    by_cases hroom : r.head + prefixSize ≤ r.capacity
    · rw [if_pos hroom] at hsent
      rw [← hsent]
      exact Or.inr (leNat_bytesAt_store_sentinel hroom (Or.inr (by omega)))
    · exact Or.inl (by rw [← capacity, hcap]; omega)

theorem Holds.store {p : Placement} (h : Holds r q) (hne : frame ≠ []) (hp : Fits r frame.length p) :
    Holds (r.store p frame).value (q ++ [frame]) := by
  cases hp with
  | between hlt hend => exact h.store_between hne hlt hend
  | behind hle hend => exact h.store_behind hne hle hend
  | before hle hend => exact h.store_before hne hle hend

end MeterRadio.FrameRing
