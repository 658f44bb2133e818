import MeterRadio.Frame.Queue
import MeterRadio.Proofs.Ring.Layout

/-!
# A ring is a queue

A ring answers every operation as a queue of frames does that is told how much room there is
(`Models.step`), so no sequence of calls can tell the two apart. What can still be taken out of a ring
are the frames of its queue (`Models.drain`).

`Queues` is the same for every ring: one without storage is a queue that stays empty.
-/

namespace MeterRadio.FrameRing

variable {r : FrameRing} {q : FrameQueue} {frame : Bytes} {frames rest : List Bytes}

/-- The ring holds the frames of the queue and has refused as many. -/
structure Models (r : FrameRing) (q : FrameQueue) : Prop where
  holds : Holds r q.frames
  refused : r.overflow = q.refused

theorem models_ofStorage {storage : Bytes} (h : Usable storage.length) :
    Models (ofStorage storage) FrameQueue.empty :=
  ⟨holds_ofStorage h, rfl⟩

theorem Models.isEmpty (h : Models r q) : r.isEmpty = q.frames.isEmpty := by
  rw [Bool.eq_iff_iff, List.isEmpty_iff, ← h.holds.tail_eq_head_iff, FrameRing.isEmpty, beq_iff_eq]
  exact eq_comm

theorem Models.holds_nil (h : Models r q) (hempty : r.isEmpty = true) : Holds r [] := by
  have hframes : q.frames = [] := List.isEmpty_iff.mp (h.isEmpty.symm.trans hempty)
  rw [← hframes]
  exact h.holds

theorem Models.push (h : Models r q) (frame : Bytes) :
    (r.push frame).1 = (q.push r.freeSpace frame).1 ∧
      Models (r.push frame).2 (q.push r.freeSpace frame).2 := by
  have hcap : ¬r.capacity = 0 := by have := h.holds.tail_lt; omega
  rw [FrameRing.push, pushTraced, if_neg hcap, FrameQueue.push]
  by_cases hne : frame = []
  · rw [if_pos hne, if_pos hne]
    exact ⟨rfl, h⟩
  · rw [if_neg hne, if_neg hne]
    by_cases hlen : frame.length ≤ r.freeSpace
    · have hfits := fits_place (List.length_pos_iff.mpr hne) hlen
      rw [if_neg (Nat.not_lt.mpr hlen), if_pos hlen]
      exact ⟨rfl, h.holds.store hne hfits, h.refused⟩
    · rw [if_pos (Nat.lt_of_not_le hlen), if_neg hlen]
      exact ⟨rfl, h.holds.congr_overflow _, congrArg (· + 1) h.refused⟩

/-- A frame is taken exactly if there is room for it. -/
theorem Holds.push_ok_iff (h : Holds r frames) :
    (r.push frame).1 = .ok () ↔ frame ≠ [] ∧ frame.length ≤ r.freeSpace := by
  have hmodels : Models r ⟨frames, r.overflow⟩ := ⟨h, rfl⟩
  rw [(hmodels.push frame).1, FrameQueue.push]
  split_ifs with hnil hlen
  · exact ⟨fun hok => hok.elim, fun hroom => absurd hnil hroom.1⟩
  · exact ⟨fun _ => ⟨hnil, hlen⟩, fun _ => rfl⟩
  · exact ⟨fun hok => hok.elim, fun hroom => absurd hroom.2 hlen⟩

theorem value_copyOut {start : Nat} (h : bytesAt r.storage start frame.length = frame)
    (out : Option Bytes) :
    (r.copyOut start frame.length out).value = FrameQueue.handOver frame out := by
  rcases out with _ | ⟨_ | ⟨b, out⟩⟩
  · rfl
  · rfl
  · have hread : bytesAt r.storage start (min (b :: out).length frame.length) =
        frame.take (b :: out).length := by
      rw [bytesAt_eq_take (Nat.min_le_right _ _), h]
      rcases Nat.le_total (b :: out).length frame.length with hle | hle
      · rw [Nat.min_eq_left hle]
      · rw [Nat.min_eq_right hle, List.take_length, List.take_of_length_le hle]
    have hrest : (b :: out).drop (frame.take (b :: out).length).length =
        (b :: out).drop frame.length := by
      rw [List.length_take]
      rcases Nat.le_total (b :: out).length frame.length with hle | hle
      · rw [Nat.min_eq_left hle, List.drop_length, List.drop_eq_nil_of_le hle]
      · rw [Nat.min_eq_right hle]
    show Popped.mk (min (b :: out).length frame.length)
      (some (copyInto (b :: out) (bytesAt r.storage start (min (b :: out).length frame.length)))) = _
    rw [hread, copyInto, hrest, FrameQueue.handOver]

theorem Holds.peek_nil (h : Holds r []) : r.peek = (none, r) := by
  rw [FrameRing.peek, peekTraced, Traced.value_bind, h.front_nil]
  rfl

/-- The oldest frame is handed over, and `tail` settles on it. -/
theorem Holds.peek_cons (h : Holds r (frame :: rest)) :
    ∃ pos, (pos = r.tail ∨ pos = 0 ∧ r.head < r.tail) ∧ AtTail { r with tail := pos } frame rest ∧
      r.peek = (some frame, { r with tail := pos }) := by
  obtain ⟨pos, hpos, hat, hfront⟩ := h.front_cons
  obtain ⟨older, stop, hlaid, -, -⟩ := hat.laid
  refine ⟨pos, hpos, hat, ?_⟩
  rw [FrameRing.peek, peekTraced, Traced.value_bind, hfront]
  exact Prod.ext (congrArg some hlaid.2.2.1) rfl

theorem Holds.pop_nil (h : Holds r []) (out : Option Bytes) : r.pop out = (⟨0, out⟩, r) := by
  rw [FrameRing.pop, popTraced, Traced.value_bind, h.front_nil]
  rfl

/-- The oldest frame is handed over, and `tail` moves from it to what follows. -/
theorem Holds.pop_cons (h : Holds r (frame :: rest)) (out : Option Bytes) :
    ∃ pos, (pos = r.tail ∨ pos = 0 ∧ r.head < r.tail) ∧ AtTail { r with tail := pos } frame rest ∧
      r.pop out = (FrameQueue.handOver frame out,
        { r with tail := r.wrap (pos + prefixSize + frame.length) }) := by
  obtain ⟨pos, hpos, hat, hfront⟩ := h.front_cons
  obtain ⟨older, stop, hlaid, -, -⟩ := hat.laid
  refine ⟨pos, hpos, hat, ?_⟩
  rw [FrameRing.pop, popTraced, Traced.value_bind, hfront]
  exact Prod.ext (value_copyOut hlaid.2.2.1 out) rfl

theorem Models.peek (h : Models r q) :
    r.peek.1 = q.frames.head? ∧ Models r.peek.2 q := by
  obtain ⟨hholds, hrefused⟩ := h
  obtain ⟨frames, refused⟩ := q
  cases frames with
  | nil =>
    rw [hholds.peek_nil]
    exact ⟨rfl, hholds, hrefused⟩
  | cons frame rest =>
    obtain ⟨pos, -, hat, hpeek⟩ := hholds.peek_cons
    rw [hpeek]
    exact ⟨rfl, hat.holds, hrefused⟩

theorem Models.pop (h : Models r q) (out : Option Bytes) :
    (r.pop out).1 = (q.pop out).1 ∧ Models (r.pop out).2 (q.pop out).2 := by
  obtain ⟨hholds, hrefused⟩ := h
  obtain ⟨frames, refused⟩ := q
  cases frames with
  | nil =>
    rw [hholds.pop_nil]
    exact ⟨rfl, hholds, hrefused⟩
  | cons frame rest =>
    obtain ⟨pos, -, hat, hpop⟩ := hholds.pop_cons out
    rw [hpop]
    exact ⟨rfl, hat.removed, hrefused⟩

/-- One operation: the ring answers like its queue. -/
theorem Models.step (h : Models r q) (op : Op) :
    (r.step op).1 = (q.step r.freeSpace op).1 ∧
      Models (r.step op).2 (q.step r.freeSpace op).2 := by
  cases op with
  | push frame =>
    obtain ⟨hanswer, hmodels⟩ := h.push frame
    exact ⟨congrArg Answer.pushed hanswer, hmodels⟩
  | peek =>
    obtain ⟨hanswer, hmodels⟩ := h.peek
    exact ⟨congrArg Answer.peeked hanswer, hmodels⟩
  | pop out =>
    obtain ⟨hanswer, hmodels⟩ := h.pop out
    exact ⟨congrArg Answer.popped hanswer, hmodels⟩
  | freeSpace => exact ⟨rfl, h⟩
  | isEmpty => exact ⟨congrArg Answer.empty h.isEmpty, h⟩
  | takeOverflow =>
    exact ⟨congrArg Answer.overflow h.refused, h.holds.congr_overflow 0, rfl⟩

theorem Models.run (h : Models r q) (ops : List Op) :
    (r.run ops).1 = (q.run (r.observe ops)).1 ∧
      Models (r.run ops).2 (q.run (r.observe ops)).2 := by
  induction ops generalizing r q with
  | nil => exact ⟨rfl, h⟩
  | cons op ops ih =>
    obtain ⟨hanswer, hmodels⟩ := h.step op
    obtain ⟨hanswers, hfinal⟩ := ih hmodels
    refine ⟨?_, hfinal⟩
    rw [FrameRing.run, observe, FrameQueue.run]
    exact congrArg₂ List.cons hanswer hanswers

/-- Taking out as many frames as there are, or more, gives the frames and leaves an empty ring. -/
theorem Models.takeFrames (h : Models r q) {rounds : Nat} (hle : q.frames.length ≤ rounds) :
    (r.takeFrames rounds).1 = q.frames ∧
      Models (r.takeFrames rounds).2 { q with frames := [] } := by
  -- each round takes one frame, so the bound on the frames goes down with the rounds
  induction rounds generalizing r q with
  | zero =>
    have hq : q.frames = [] := List.length_eq_zero_iff.mp (Nat.le_zero.mp hle)
    rw [FrameRing.takeFrames, hq]
    exact ⟨rfl, by rw [← hq]; exact h⟩
  | succ rounds ih =>
    obtain ⟨hpeek, hmodels⟩ := h.peek
    rw [FrameRing.takeFrames]
    cases hq : q.frames with
    | nil =>
      rw [hq] at hpeek
      rw [show r.peek = (none, r.peek.2) from Prod.ext hpeek rfl]
      exact ⟨rfl, by rw [← hq]; exact hmodels⟩
    | cons frame rest =>
      rw [hq] at hpeek hle
      rw [show r.peek = (some frame, r.peek.2) from Prod.ext hpeek rfl]
      obtain ⟨-, hpop⟩ := hmodels.pop none
      rw [FrameQueue.pop, hq] at hpop
      obtain ⟨hframes, hrest⟩ := ih hpop (Nat.le_of_succ_le_succ hle)
      exact ⟨congrArg (frame :: ·) hframes, hrest⟩

theorem Models.drain (h : Models r q) :
    r.drain.1 = q.frames ∧ Models r.drain.2 { q with frames := [] } :=
  h.takeFrames h.holds.length_le

theorem Models.count_pop_eq_zero_iff (h : Models r q) (out : Option Bytes) :
    (r.pop out).1.count = 0 ↔ q.frames = [] := by
  rw [(h.pop out).1, FrameQueue.pop]
  cases hq : q.frames with
  | nil => exact ⟨fun _ => rfl, fun _ => rfl⟩
  | cons frame rest =>
    have hholds := h.holds
    rw [hq] at hholds
    obtain ⟨pos, -, hat, -⟩ := hholds.front_cons
    obtain ⟨older, stop, hlaid, -, -⟩ := hat.laid
    have hpos := hlaid.length_pos
    refine ⟨fun h0 => ?_, fun h0 => absurd h0 (List.cons_ne_nil _ _)⟩
    rcases out with _ | ⟨_ | ⟨b, out⟩⟩
    · exact absurd h0 (Nat.ne_of_gt hpos)
    · exact absurd h0 (Nat.ne_of_gt hpos)
    · have hmin : min (b :: out).length frame.length = 0 := h0
      rw [List.length_cons] at hmin
      omega

/-- **A ring is a first-in first-out queue.** Over usable storage, whatever it held before, all calls
through the whole ring or its halves are answered as a queue answers that is told the free space
before each call. In the end the ring holds the frames of the queue and has counted as many refused
ones. -/
theorem callAll_ofStorage {storage : Bytes} (h : Usable storage.length) (calls : List Call) :
    let (answers, ring) := (ofStorage storage).callAll calls
    let (expected, queue) := FrameQueue.empty.run ((ofStorage storage).observe (calls.map Call.op))
    answers = expected ∧ ring.drain.1 = queue.frames ∧ ring.overflow = queue.refused ∧
      (ring.isEmpty = true ↔ queue.frames = []) ∧
      ∀ out, (ring.pop out).1.count = 0 ↔ queue.frames = [] := by
  obtain ⟨hanswers, hmodels⟩ := (models_ofStorage h).run (calls.map Call.op)
  refine ⟨hanswers, hmodels.drain.1, hmodels.refused, ?_, hmodels.count_pop_eq_zero_iff⟩
  rw [hmodels.isEmpty, List.isEmpty_iff]

/-- In nine bytes of storage a second frame goes to the start once the first one is taken out. -/
theorem callAll_ofStorage_nine :
    Usable (List.replicate 9 (0xEE : UInt8)).length ∧
      ((ofStorage (List.replicate 9 0xEE)).callAll
        [⟨.producer, .push [1, 2, 3, 4], trivial⟩, ⟨.consumer, .peek, trivial⟩,
          ⟨.consumer, .pop (some [9, 9]), trivial⟩,
          ⟨.producer, .push [5, 6, 7], trivial⟩]).2.drain.1 = [[5, 6, 7]] :=
  ⟨by decide, (callAll_ofStorage (by decide) _).2.1.trans (by decide)⟩

/-! ## What waits in a ring -/

theorem Holds.models (h : Holds r frames) : Models r ⟨frames, r.overflow⟩ :=
  ⟨h, rfl⟩

/-- The frames that wait in a ring, the oldest first; in a ring without storage there are none. -/
def Queues (r : FrameRing) (frames : List Bytes) : Prop :=
  r.capacity = 0 ∧ frames = [] ∨ Holds r frames

theorem queues_ofCapacity (size : Nat) : Queues (ofCapacity size) [] := by
  by_cases h : Usable size
  · exact Or.inr (holds_ofCapacity h)
  · refine Or.inl ⟨?_, rfl⟩
    rw [capacity, ofCapacity, if_neg h]
    rfl

theorem Queues.holds (h : Queues r frames) (hcap : r.capacity ≠ 0) : Holds r frames := by
  rcases h with ⟨h0, -⟩ | h
  · exact absurd h0 hcap
  · exact h

/-- A queue that takes a frame has it behind all others; else nothing changes. -/
theorem frames_push (q : FrameQueue) (free : Nat) (frame : Bytes) :
    (q.push free frame).2.frames =
      q.frames ++ if (q.push free frame).1.isOk then [frame] else [] := by
  rw [FrameQueue.push]
  by_cases hne : frame = []
  · rw [if_pos hne]
    exact (List.append_nil _).symm
  · rw [if_neg hne]
    by_cases hlen : frame.length ≤ free
    · rw [if_pos hlen]
      rfl
    · rw [if_neg hlen]
      exact (List.append_nil _).symm

theorem Queues.push (h : Queues r frames) (frame : Bytes) :
    Queues (r.push frame).2 (frames ++ if (r.push frame).1.isOk then [frame] else []) := by
  rcases h with ⟨hcap, rfl⟩ | h
  · have hpush : r.push frame = (.error .uninitialized, r) := by
      rw [FrameRing.push, pushTraced, if_pos hcap, Traced.value_pure]
    rw [hpush]
    exact Or.inl ⟨hcap, rfl⟩
  · obtain ⟨hresult, hmodels⟩ := h.models.push frame
    have hholds := hmodels.holds
    rw [frames_push, ← hresult] at hholds
    exact Or.inr hholds

theorem Queues.drain (h : Queues r frames) : r.drain.1 = frames ∧ Queues r.drain.2 [] := by
  rcases h with ⟨hcap, rfl⟩ | h
  · rw [FrameRing.drain, hcap]
    exact ⟨rfl, Or.inl ⟨hcap, rfl⟩⟩
  · exact ⟨h.models.drain.1, Or.inr h.models.drain.2.holds⟩

theorem Queues.takeOverflow (h : Queues r frames) : Queues r.takeOverflow.2 frames := by
  rcases h with h | h
  · exact Or.inl h
  · exact Or.inr (h.congr_overflow 0)

/-! ## What reading leaves alone -/

/-- Looking for the oldest frame moves `tail` and nothing else. -/
theorem exists_tail_front (r : FrameRing) : ∃ tail, r.front.value.2 = { r with tail } := by
  have hhere : ∃ tail, r = { r with tail } := ⟨r.tail, rfl⟩
  have hstart : ∃ tail, { r with tail := 0 } = { r with tail } := ⟨0, rfl⟩
  rw [front]
  split_ifs
  · exact hhere
  · exact hhere
  · rw [Traced.value_bind]
    split_ifs
    · dsimp only
      split_ifs
      · exact hstart
      · exact hstart
    · exact hhere

theorem exists_tail_peek (r : FrameRing) : ∃ tail, r.peek.2 = { r with tail } := by
  obtain ⟨tail, hfront⟩ := exists_tail_front r
  refine ⟨tail, ?_⟩
  rw [← hfront, peek, peekTraced, Traced.value_bind]
  obtain ⟨found, r⟩ := r.front.value
  cases found <;> rfl

theorem exists_tail_pop (r : FrameRing) (out : Option Bytes) :
    ∃ tail, (r.pop out).2 = { r with tail } := by
  obtain ⟨tail, hfront⟩ := exists_tail_front r
  rw [pop, popTraced, Traced.value_bind]
  generalize r.front.value = settled at hfront
  obtain ⟨found, r'⟩ := settled
  obtain rfl : r' = { r with tail } := hfront
  cases found with
  | frame start len => exact ⟨_, rfl⟩
  | empty => exact ⟨tail, rfl⟩
  | broken => exact ⟨tail, rfl⟩

theorem exists_tail_takeFrames (r : FrameRing) (rounds : Nat) :
    ∃ tail, (r.takeFrames rounds).2 = { r with tail } := by
  induction rounds generalizing r with
  | zero => exact ⟨r.tail, rfl⟩
  | succ rounds ih =>
    obtain ⟨tail, hpeek⟩ := exists_tail_peek r
    rw [takeFrames]
    generalize r.peek = peeked at hpeek
    obtain ⟨_ | frame, r'⟩ := peeked
    · exact ⟨tail, hpeek⟩
    · obtain rfl : r' = { r with tail } := hpeek
      obtain ⟨tail', hpop⟩ := exists_tail_pop { r with tail } none
      obtain ⟨tail'', hrest⟩ := ih { r with tail := tail' }
      refine ⟨tail'', ?_⟩
      dsimp only
      rw [hpop]
      exact hrest

theorem capacity_drain (r : FrameRing) : r.drain.2.capacity = r.capacity := by
  obtain ⟨tail, h⟩ := exists_tail_takeFrames r r.capacity
  rw [drain, h]
  rfl

theorem overflow_drain (r : FrameRing) : r.drain.2.overflow = r.overflow := by
  obtain ⟨tail, h⟩ := exists_tail_takeFrames r r.capacity
  rw [drain, h]

/-! ## Every ring -/

theorem capacity_pushTraced (r : FrameRing) (frame : Bytes) :
    (r.pushTraced frame).value.2.capacity = r.capacity := by
  rw [pushTraced]
  split_ifs
  · rfl
  · rfl
  · dsimp only
    split_ifs
    · rfl
    · exact capacity_store r _ frame

theorem capacity_step (r : FrameRing) (op : Op) : (r.step op).2.capacity = r.capacity := by
  cases op with
  | push frame => exact capacity_pushTraced r frame
  | peek =>
    obtain ⟨tail, h⟩ := exists_tail_peek r
    show r.peek.2.capacity = r.capacity
    rw [h]
    rfl
  | pop out =>
    obtain ⟨tail, h⟩ := exists_tail_pop r out
    show (r.pop out).2.capacity = r.capacity
    rw [h]
    rfl
  | freeSpace => rfl
  | isEmpty => rfl
  | takeOverflow => rfl

theorem capacity_run (r : FrameRing) (ops : List Op) : (r.run ops).2.capacity = r.capacity := by
  induction ops generalizing r with
  | nil => rfl
  | cons op ops ih =>
    rw [run, ← capacity_step r op]
    exact ih _

/-- A ring without storage or one that behaves as a queue. -/
def Ready (r : FrameRing) : Prop :=
  r.capacity = 0 ∨ ∃ q, Models r q

theorem Queues.ready (h : Queues r frames) : Ready r := by
  rcases h with ⟨hcap, -⟩ | h
  · exact Or.inl hcap
  · exact Or.inr ⟨_, h.models⟩

theorem ready_ofCapacity (size : Nat) : Ready (ofCapacity size) :=
  (queues_ofCapacity size).ready

theorem Ready.step (h : Ready r) (op : Op) : Ready (r.step op).2 := by
  rcases h with h | ⟨q, h⟩
  · refine Or.inl ?_
    rw [capacity_step]
    exact h
  · exact Or.inr ⟨_, (h.step op).2⟩

theorem Ready.run (h : Ready r) (ops : List Op) : Ready (r.run ops).2 := by
  induction ops generalizing r with
  | nil => exact h
  | cons op ops ih => exact ih (h.step op)

theorem Ready.drain (h : Ready r) : Ready r.drain.2 := by
  rcases h with h | ⟨q, h⟩
  · refine Or.inl ?_
    rw [FrameRing.drain, h]
    exact h
  · exact Or.inr ⟨_, h.drain.2⟩

/-- A frame for which there is room goes behind all others. -/
theorem Ready.drain_push (h : Ready r) (hne : frame ≠ []) (hroom : frame.length ≤ r.freeSpace) :
    (r.push frame).2.drain.1 = r.drain.1 ++ [frame] := by
  rcases h with h | ⟨q, h⟩
  · have hpos := List.length_pos_iff.mpr hne
    rw [freeSpace, if_pos h] at hroom
    omega
  · have hpush := (h.push frame).2
    rw [FrameQueue.push, if_neg hne, if_pos hroom] at hpush
    rw [hpush.drain.1, h.drain.1]

/-! ## The count of refused frames -/

/-- In a ring with storage every refused frame is counted, and no other. -/
theorem overflow_push (hcap : r.capacity ≠ 0) (hne : frame ≠ []) :
    (r.push frame).2.overflow = r.overflow + if (r.push frame).1.isOk then 0 else 1 := by
  rw [FrameRing.push, pushTraced, if_neg hcap, if_neg hne]
  by_cases hfull : r.freeSpace < frame.length
  · dsimp only
    rw [if_pos hfull]
    rfl
  · dsimp only
    rw [if_neg hfull]
    exact (UInt32.add_zero _).symm

end MeterRadio.FrameRing
