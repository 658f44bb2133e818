import MeterRadio.Line.Window
import MeterRadio.Proofs.Bits
import MeterRadio.Proofs.Line.Preamble

/-!
# A window shows the latest bits

`Shows w h` is the invariant of a window: both copies of the circular buffer hold the bits of a
stream, of which `h age` is the one that came `age` bits before the latest. The latest `span` bits
can then be read in one piece that ends with the second copy of the newest one
(`ShowsAt.bit_latest`), and so can the preamble and the bytes of a message (`ShowsAt.testBit_word`,
`ShowsAt.bits_realign`).
-/

namespace MeterRadio.Line.Window

variable {w : Window} {h : Nat → Bool} {v : Bool} {age c : Nat}

/-- The window holds the bits `h`, the newest one just before the cursor. -/
structure Shows (w : Window) (h : Nat → Bool) : Prop where
  size_eq : w.bytes.size = 2 * maxRawSize + 1
  cursor_lt : w.cursor < span
  first : ∀ age < span, Bytes.bit w.bytes.toList ((w.cursor + span - 1 - age) % span) = h age
  second : ∀ age < span,
    Bytes.bit w.bytes.toList ((w.cursor + span - 1 - age) % span + span) = h age

theorem span_eq : span = 736 := rfl

theorem Shows.length_eq (hs : Shows w h) : 8 * w.bytes.toList.length = 2 * span + 8 := by
  rw [Array.length_toList, hs.size_eq]
  rfl

theorem shows_empty : Shows empty fun _ => false := by
  have hbit (i : Nat) : Bytes.bit empty.bytes.toList i = false := by
    rw [Bytes.bit, empty, Array.toList_replicate, List.getD_eq_getElem?_getD,
      List.getElem?_replicate]
    split_ifs <;> simp [byteBit]
  exact
    { size_eq := Array.size_replicate
      cursor_lt := by decide
      first := fun age _ => hbit _
      second := fun age _ => hbit _ }

theorem toList_setBit (bytes : Array UInt8) (i : Nat) (v : Bool) :
    (setBit bytes i v).toList = Bytes.setBit bytes.toList i v :=
  Array.toList_modify

theorem Shows.bit_push (hs : Shows w h) (v : Bool) (i : Nat) :
    Bytes.bit (w.push v).bytes.toList i =
      if i = w.cursor ∨ i = w.cursor + span then v else Bytes.bit w.bytes.toList i := by
  have hlen := hs.length_eq
  have hlt := hs.cursor_lt
  rw [push, toList_setBit, toList_setBit,
    Bytes.bit_setBit (by rw [Bytes.length_setBit]; omega), Bytes.bit_setBit (by omega)]
  by_cases hfirst : i = w.cursor
  · rw [if_pos hfirst, if_pos (Or.inl hfirst), ite_self]
  · by_cases hsecond : i = w.cursor + span
    · rw [if_pos hsecond, if_pos (Or.inr hsecond)]
    · rw [if_neg hsecond, if_neg hfirst, if_neg (not_or.mpr ⟨hfirst, hsecond⟩)]

/-- A stream with one more bit. -/
def after (v : Bool) (h : Nat → Bool) : Nat → Bool
  | 0 => v
  | age + 1 => h age

/-- A window that takes a bit shows it as the newest one. -/
theorem Shows.push (hs : Shows w h) (v : Bool) : Shows (w.push v) (after v h) := by
  have hlt := hs.cursor_lt
  have hspan := span_eq
  have hcursor : (w.push v).cursor = (w.cursor + 1) % span := rfl
  rw [span_eq] at hcursor
  -- the newest bit is where the cursor was, and every other bit keeps its place
  have hnew : ((w.push v).cursor + span - 1 - 0) % span = w.cursor := by
    rw [hcursor, span_eq]
    omega
  have hold (age : Nat) (hage : age + 1 < span) :
      ∃ i < span, ((w.push v).cursor + span - 1 - (age + 1)) % span = i ∧
        (w.cursor + span - 1 - age) % span = i ∧ i ≠ w.cursor := by
    refine ⟨(w.cursor + span - 1 - age) % span, Nat.mod_lt _ (by decide), ?_⟩
    rw [hcursor, span_eq]
    rw [span_eq] at hage
    omega
  refine
    { size_eq := by simpa [Window.push, setBit] using hs.size_eq
      cursor_lt := Nat.mod_lt _ (by decide)
      first := fun age hage => ?_
      second := fun age hage => ?_ }
  · rw [hs.bit_push]
    cases age with
    | zero =>
      rw [hnew]
      exact if_pos (Or.inl rfl)
    | succ age =>
      obtain ⟨i, hi, hnext, hi', hne⟩ := hold age hage
      rw [hnext, if_neg (by omega), ← hi']
      exact hs.first age (by omega)
  · rw [hs.bit_push]
    cases age with
    | zero =>
      rw [hnew]
      exact if_pos (Or.inr rfl)
    | succ age =>
      obtain ⟨i, hi, hnext, hi', hne⟩ := hold age hage
      rw [hnext, if_neg (by omega), ← hi']
      exact hs.second age (by omega)

/-- The window shows the bits `h`, the newest one in position `c`. -/
structure ShowsAt (w : Window) (h : Nat → Bool) (c : Nat) : Prop extends Shows w h where
  lt_span : c < span
  cursor_eq : w.cursor = (c + 1) % span

theorem Shows.push_at (hs : Shows w h) (v : Bool) : ShowsAt (w.push v) (after v h) w.cursor :=
  { hs.push v with lt_span := hs.cursor_lt, cursor_eq := rfl }

/-- The latest bits lie in one piece that ends with the second copy of the newest one. -/
theorem ShowsAt.bit_latest (hs : ShowsAt w h c) (hage : age < span) :
    Bytes.bit w.bytes.toList (c + span - age) = h age := by
  have hc := hs.lt_span
  have hfirst := hs.first age hage
  have hsecond := hs.second age hage
  rw [hs.cursor_eq] at hfirst hsecond
  rw [span_eq] at hc hage hfirst hsecond ⊢
  -- bits of this lap are read from the second copy, those of the lap before from the first one
  by_cases hle : age ≤ c
  · have hidx : ((c + 1) % 736 + 736 - 1 - age) % 736 + 736 = c + 736 - age := by omega
    rw [hidx] at hsecond
    exact hsecond
  · have hidx : ((c + 1) % 736 + 736 - 1 - age) % 736 = c + 736 - age := by omega
    rw [hidx] at hfirst
    exact hfirst

theorem toList_cut (w : Window) (pos len : Nat) : w.cut pos len = slice w.bytes.toList pos len := by
  rw [cut, Array.toList_extract, List.extract_eq_take_drop, Nat.add_sub_cancel_left, slice]

theorem ShowsAt.bit_message (hs : ShowsAt w h c) {n i : Nat} (hn : n ≤ maxRawSize) (hi : i < 8 * n) :
    Bytes.bit w.bytes.toList (c + span + 1 - 8 * n + i) = h (8 * n - 1 - i) := by
  have hn' : n ≤ 92 := hn
  have hspan := span_eq
  have hidx : c + span + 1 - 8 * n + i = c + span - (8 * n - 1 - i) := by omega
  rw [hidx]
  exact hs.bit_latest (by omega)

theorem ShowsAt.testBit_word (hs : ShowsAt w h c) {n i : Nat} (hn : n ≤ maxRawSize) (hn4 : 4 ≤ n)
    (hi : i < 32) :
    (w.word (c + span + 1 - 8 * n)).toNat.testBit (31 - i) = h (8 * n - 1 - i) := by
  have hn' : n ≤ 92 := hn
  have hc := hs.lt_span
  have hlen := hs.length_eq
  rw [← hs.bit_message hn (by omega : i < 8 * n)]
  rw [span_eq] at hc hlen ⊢
  generalize hpos : c + 736 + 1 - 8 * n = pos
  have hcut : (w.cut (pos / 8) 5).length = 5 := by
    rw [toList_cut, slice, List.length_take, List.length_drop]
    omega
  have hfits : FieldFits (w.cut (pos / 8) 5) (pos % 8) 32 := by
    rw [FieldFits, hcut, maxFieldBits]
    omega
  have hidx : pos % 8 + 32 - 1 - (31 - i) = pos % 8 + i := by omega
  have hback : 8 * (pos / 8) + (pos % 8 + i) = pos + i := by omega
  rw [word, testBit_fieldValue hfits, hidx, toList_cut, Bytes.bit_slice _ (by omega), hback,
    decide_eq_true (by omega), Bool.true_and]

/-- A message that is cut out and realigned has the latest bits. -/
theorem ShowsAt.bits_realign (hs : ShowsAt w h c) {n : Nat} (hn : n ≤ maxRawSize) (hn1 : 1 ≤ n) :
    (w.cut ((c + span + 1 - 8 * n) / 8) (n + 1)).length = n + 1 ∧
      Bytes.bits ((realign (w.cut ((c + span + 1 - 8 * n) / 8) (n + 1))
        ((c + span + 1 - 8 * n) % 8)).take n) =
        (List.range (8 * n)).map fun i => h (8 * n - 1 - i) := by
  have hn' : n ≤ 92 := hn
  have hc := hs.lt_span
  have hlen := hs.length_eq
  have hcut : (w.cut ((c + span + 1 - 8 * n) / 8) (n + 1)).length = n + 1 := by
    rw [span_eq] at hc hlen ⊢
    rw [toList_cut, slice, List.length_take, List.length_drop]
    omega
  refine ⟨hcut, ?_⟩
  have htake : ((realign (w.cut ((c + span + 1 - 8 * n) / 8) (n + 1))
      ((c + span + 1 - 8 * n) % 8)).take n).length = n := by
    rw [List.length_take, length_realign, hcut]
    exact Nat.min_eq_left (Nat.le_succ n)
  rw [Bytes.bits_eq_map, htake]
  refine List.map_congr_left fun i hi => ?_
  have hi' : i < 8 * n := List.mem_range.mp hi
  rw [← hs.bit_message hn hi']
  generalize c + span + 1 - 8 * n = pos
  have hback : 8 * (pos / 8) + (i + pos % 8) = pos + i := by omega
  rw [Bytes.bit_take _ hi', bit_realign, Nat.mod_mod, toList_cut, Bytes.bit_slice _ (by omega),
    hback]

/-- A capture has at most the bytes that it asks for, even where the window ends earlier. -/
theorem length_raw_of_capture? {stop : Nat} {found : Capture} (h : w.capture? stop = some found) :
    found.raw.length ≤ found.kind.rawSize + 1 := by
  unfold capture? at h
  obtain ⟨kind, -, rfl⟩ := Option.map_eq_some_iff.mp h
  dsimp only
  rw [toList_cut, slice]
  exact List.length_take_le _ _

end MeterRadio.Line.Window
