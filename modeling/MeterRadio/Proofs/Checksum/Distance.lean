import MeterRadio.Proofs.Checksum.Residual

/-!
# Which errors a register detects

A damaged message differs from the one that was sent by a pattern of flipped bits. What is left of
this pattern in an empty register is its *syndrome*: the damage goes unnoticed exactly if it is zero.
A pattern is listed from the end of the message, so that its flipped bits contribute the generator
after no shift, one shift, two shifts and so on (`feedBits_reverse`).

* A generator that `x + 1` divides detects every odd number of flipped bits: every contribution has
  odd parity (`syndrome_ne_zero_of_odd`).
* Few flipped bits are settled by a search. Shifts are injective, so the last flipped bit may be taken
  to be the last bit of the message (`syndrome_ne_zero_of_noCancel`); the sums of its contribution with
  up to `weight` others are formed, and none of them may be zero (`noCancel_of_avoids`) or the
  contribution of yet another bit (`noCancel_of_avoids_reached`).
-/

namespace MeterRadio.Checksum

variable {poly reg acc : UInt16} {n weight seen : Nat} {errors : List Bool}

/-! ## Syndromes -/

/-- What the flipped bits leave in an empty register if the first of them leaves `reg`. -/
def syndrome (poly : UInt16) : (reg : UInt16) → (errors : List Bool) → UInt16
  | _, [] => 0
  | reg, b :: errors => (if b then reg else 0) ^^^ syndrome poly (shiftBit poly reg) errors

theorem syndrome_shiftBit (poly reg : UInt16) (errors : List Bool) :
    syndrome poly (shiftBit poly reg) errors = shiftBit poly (syndrome poly reg errors) := by
  induction errors generalizing reg with
  | nil => exact (shiftBit_zero poly).symm
  | cons b errors ih =>
    rw [syndrome, syndrome, ih, shiftBit_xor]
    cases b with
    | false => rw [if_neg Bool.false_ne_true, if_neg Bool.false_ne_true, shiftBit_zero]
    | true => rfl

theorem feedBits_reverse (poly : UInt16) (errors : List Bool) :
    feedBits poly 0 errors.reverse = syndrome poly poly errors := by
  induction errors with
  | nil => rfl
  | cons b errors ih =>
    have hstep : feedBits poly 0 (b :: errors).reverse =
        feedBit poly (feedBits poly 0 errors.reverse) b := by
      rw [List.reverse_cons, feedBits_append]
      rfl
    rw [hstep, ih, feedBit, shiftBit_xor, ← syndrome_shiftBit, syndrome, UInt16.xor_comm]
    congr 1
    cases b with
    | false => exact shiftBit_zero poly
    | true => exact UInt16.zero_xor

/-- Registers that are fed messages of one length differ by the syndrome of the difference. -/
theorem feedBits_xor_feedBits {xs ys : List Bool} (h : xs.length = ys.length) :
    feedBits poly reg xs ^^^ feedBits poly reg ys =
      syndrome poly poly (List.zipWith (· ^^ ·) xs ys).reverse := by
  rw [feedBits_xor poly reg reg h, UInt16.xor_self, ← feedBits_reverse, List.reverse_reverse]

theorem syndrome_replicate_false (poly reg : UInt16) (n : Nat) :
    syndrome poly reg (List.replicate n false) = 0 := by
  induction n generalizing reg with
  | zero => rfl
  | succ n ih =>
    rw [List.replicate_succ, syndrome, ih, if_neg Bool.false_ne_true]
    rfl

/-- One flipped bit more adds its contribution. -/
theorem syndrome_append_true (poly reg : UInt16) (before behind : List Bool) :
    syndrome poly reg (before ++ true :: behind) =
      syndrome poly reg (before ++ false :: behind) ^^^ shiftBits poly before.length reg := by
  induction before generalizing reg with
  | nil =>
    rw [List.nil_append, List.nil_append, syndrome, syndrome, if_pos rfl, if_neg Bool.false_ne_true,
      UInt16.zero_xor, UInt16.xor_comm]
    rfl
  | cons b before ih =>
    rw [List.cons_append, List.cons_append, syndrome, syndrome, ih, UInt16.xor_assoc]
    rfl

/-! ## Odd numbers of flipped bits -/

/-- The parity of the low `n` bits of a word. -/
def parityBelow (w : UInt16) : (n : Nat) → Bool
  | 0 => false
  | n + 1 => w.toNat.testBit n ^^ parityBelow w n

def parity (w : UInt16) : Bool :=
  parityBelow w 16

theorem parityBelow_xor (v w : UInt16) (n : Nat) :
    parityBelow (v ^^^ w) n = (parityBelow v n ^^ parityBelow w n) := by
  induction n with
  | zero => rfl
  | succ n ih =>
    rw [parityBelow, parityBelow, parityBelow, ih, UInt16.toNat_xor, Nat.testBit_xor]
    cases v.toNat.testBit n <;> cases w.toNat.testBit n <;> simp

theorem parityBelow_shiftLeft (w : UInt16) (hn : n < 16) :
    parityBelow (w <<< 1) (n + 1) = parityBelow w n := by
  have hshift : (w <<< 1).toNat = 2 * w.toNat % 2 ^ 16 := by
    rw [UInt16.toNat_shiftLeft, Nat.shiftLeft_eq, Nat.mul_comm]
    rfl
  induction n with
  | zero =>
    have hlow : (w <<< 1).toNat.testBit 0 = false := by
      rw [hshift, Nat.testBit_zero, decide_eq_false_iff_not]
      omega
    exact (congrArg (· ^^ false) hlow)
  | succ n ih =>
    have hbit : (w <<< 1).toNat.testBit (n + 1) = w.toNat.testBit n := by
      rw [hshift, Nat.testBit_mod_two_pow, decide_eq_true hn, Bool.true_and, Nat.testBit_succ,
        Nat.mul_div_cancel_left _ (by decide)]
    rw [parityBelow, hbit, ih (by omega), parityBelow]

theorem parity_xor (v w : UInt16) : parity (v ^^^ w) = (parity v ^^ parity w) :=
  parityBelow_xor v w 16

/-- A generator of odd parity, its leading term apart, keeps the parity of the register. -/
theorem parity_shiftBit (hpoly : parity poly = true) (w : UInt16) :
    parity (shiftBit poly w) = parity w := by
  have hshift : parity (w <<< 1) = (topBit w ^^ parity w) := by
    have hbelow : parity (w <<< 1) = parityBelow w 15 := parityBelow_shiftLeft w (by decide)
    have htop : parity w = (topBit w ^^ parityBelow w 15) := rfl
    rw [hbelow, htop, ← Bool.xor_assoc, Bool.xor_self, Bool.false_xor]
  rw [shiftBit_eq, parity_xor, hshift]
  cases topBit w with
  | false => simp [parity, parityBelow]
  | true => simp [hpoly]

theorem parity_syndrome (hpoly : parity poly = true) (hreg : parity reg = true) :
    parity (syndrome poly reg errors) = decide (errors.count true % 2 = 1) := by
  induction errors generalizing reg with
  | nil => simp [syndrome, parity, parityBelow]
  | cons b errors ih =>
    have hstep := ih ((parity_shiftBit hpoly reg).trans hreg)
    rw [syndrome, parity_xor, hstep]
    cases b with
    | false =>
      rw [List.count_cons_of_ne (by decide), if_neg Bool.false_ne_true]
      exact Bool.false_xor _
    | true =>
      rw [List.count_cons_self, if_pos rfl, hreg, Bool.true_xor, ← decide_not]
      congr 1
      rw [eq_iff_iff]
      omega

theorem syndrome_ne_zero_of_odd (hpoly : parity poly = true) (hodd : errors.count true % 2 = 1) :
    syndrome poly poly errors ≠ 0 := by
  intro hzero
  have hparity : parity (syndrome poly poly errors) = _ := parity_syndrome hpoly hpoly
  rw [hzero, decide_eq_true hodd] at hparity
  cases hparity

/-! ## Few flipped bits -/

/-- The registers of the next `n` shifts, and zero, as the set bits of a number. -/
def reached (poly : UInt16) : (n : Nat) → (reg : UInt16) → Nat
  | 0, _ => 1
  | n + 1, reg => reached poly n (shiftBit poly reg) ||| 2 ^ reg.toNat

/-- Whether `acc` and its sums with up to `weight` registers of the next `n` shifts are outside of
`seen`. -/
def avoids (poly : UInt16) (seen : Nat) : (n weight : Nat) → (reg acc : UInt16) → Bool
  | 0, _, _, acc => !seen.testBit acc.toNat
  | _ + 1, 0, _, acc => !seen.testBit acc.toNat
  | n + 1, weight + 1, reg, acc =>
    avoids poly seen n weight (shiftBit poly reg) (acc ^^^ reg) &&
      avoids poly seen n (weight + 1) (shiftBit poly reg) acc

theorem testBit_reached_zero (poly : UInt16) (n : Nat) (reg : UInt16) :
    (reached poly n reg).testBit 0 = true := by
  induction n generalizing reg with
  | zero => exact (by decide : Nat.testBit 1 0 = true)
  | succ n ih => rw [reached, Nat.testBit_or, ih, Bool.true_or]

theorem testBit_reached (poly reg : UInt16) {k : Nat} (hk : k < n) :
    (reached poly n reg).testBit (shiftBits poly k reg).toNat = true := by
  induction n generalizing reg k with
  | zero => exact absurd hk (Nat.not_lt_zero k)
  | succ n ih =>
    rw [reached, Nat.testBit_or]
    cases k with
    | zero =>
      rw [shiftBits, Nat.testBit_two_pow_self, Bool.or_true]
    | succ k =>
      rw [shiftBits, ih (shiftBit poly reg) (Nat.lt_of_succ_lt_succ hk), Bool.true_or]

theorem testBit_of_avoids (h : avoids poly seen n weight reg acc = true)
    (hlen : errors.length ≤ n) (hcount : errors.count true ≤ weight) :
    seen.testBit (acc ^^^ syndrome poly reg errors).toNat = false := by
  induction n generalizing weight reg acc errors with
  | zero =>
    obtain rfl := List.length_eq_zero_iff.mp (Nat.le_zero.mp hlen)
    rw [syndrome, UInt16.xor_zero]
    simpa [avoids] using h
  | succ n ih =>
    cases weight with
    | zero =>
      have hfalse : errors = List.replicate errors.length false := by
        rw [List.eq_replicate_iff]
        refine ⟨rfl, fun b hb => ?_⟩
        cases b with
        | false => rfl
        | true => exact absurd (List.count_pos_iff.mpr hb) (by omega)
      rw [hfalse, syndrome_replicate_false, UInt16.xor_zero]
      simpa [avoids] using h
    | succ weight =>
      rw [avoids, Bool.and_eq_true] at h
      cases errors with
      | nil =>
        have hlen' : ([] : List Bool).length ≤ n := Nat.zero_le n
        have hnil := ih h.2 hlen' (Nat.zero_le _)
        rwa [syndrome] at hnil ⊢
      | cons b errors =>
        have hlen' : errors.length ≤ n := Nat.le_of_succ_le_succ hlen
        cases b with
        | false =>
          rw [List.count_cons_of_ne (by decide)] at hcount
          rw [syndrome, if_neg Bool.false_ne_true, UInt16.zero_xor]
          exact ih h.2 hlen' hcount
        | true =>
          rw [List.count_cons_self] at hcount
          rw [syndrome, if_pos rfl, ← UInt16.xor_assoc]
          exact ih h.1 hlen' (Nat.le_of_succ_le_succ hcount)

/-- The last flipped bit and up to `weight` others before it do not cancel each other. -/
def NoCancel (poly : UInt16) (n weight : Nat) : Prop :=
  ∀ errors : List Bool, errors.length ≤ n → errors.count true ≤ weight →
    poly ^^^ syndrome poly (shiftBit poly poly) errors ≠ 0

theorem noCancel_of_avoids (hseen : seen.testBit 0 = true)
    (h : avoids poly seen n weight (shiftBit poly poly) poly = true) : NoCancel poly n weight := by
  intro errors hlen hcount hzero
  have havoid := testBit_of_avoids h hlen hcount
  rw [hzero, UInt16.toNat_zero, hseen] at havoid
  cases havoid

/-- A sum that is outside of the registers that one more flipped bit contributes is not cancelled by
it. -/
theorem noCancel_of_avoids_reached
    (h : avoids poly (reached poly n (shiftBit poly poly)) n weight (shiftBit poly poly) poly = true) :
    NoCancel poly n (weight + 1) := by
  intro errors hlen hcount hzero
  by_cases hmem : true ∈ errors
  · obtain ⟨before, behind, rfl⟩ := List.append_of_mem hmem
    rw [List.length_append, List.length_cons] at hlen
    rw [List.count_append, List.count_cons_self] at hcount
    rw [syndrome_append_true, ← UInt16.xor_assoc, UInt16.xor_eq_zero_iff] at hzero
    have hlen' : (before ++ false :: behind).length ≤ n := by
      rw [List.length_append, List.length_cons]
      exact hlen
    have hcount' : (before ++ false :: behind).count true ≤ weight := by
      rw [List.count_append, List.count_cons_of_ne (by decide)]
      omega
    have havoid := testBit_of_avoids h hlen' hcount'
    rw [hzero, testBit_reached poly _ (by omega)] at havoid
    cases havoid
  · have hnone : errors.count true ≤ weight := by
      rw [List.count_eq_zero.mpr hmem]
      exact Nat.zero_le _
    exact noCancel_of_avoids (testBit_reached_zero _ _ _) h errors hlen hnone hzero

/-- Shifts are injective, so the bits behind the last flipped one make no difference. -/
theorem syndrome_ne_zero_of_noCancel (hconst : HasConstantTerm poly) (h : NoCancel poly n weight)
    (hlen : errors.length ≤ n + 1) (hpos : 0 < errors.count true)
    (hcount : errors.count true ≤ weight + 1) : syndrome poly poly errors ≠ 0 := by
  induction errors with
  | nil => exact absurd hpos (Nat.lt_irrefl 0)
  | cons b errors ih =>
    rw [List.length_cons] at hlen
    intro hzero
    cases b with
    | false =>
      rw [List.count_cons_of_ne (by decide)] at hpos hcount
      rw [syndrome, if_neg Bool.false_ne_true, UInt16.zero_xor, syndrome_shiftBit] at hzero
      exact ih (by omega) hpos hcount (shiftBit_eq_zero hconst hzero)
    | true =>
      rw [List.count_cons_self] at hcount
      rw [syndrome, if_pos rfl] at hzero
      exact h errors (by omega) (by omega) hzero

/-! ## The two codes -/

/-- The code notices any `k` flipped bits in `n`. -/
def Code.Detects (c : Code) (n k : Nat) : Prop :=
  ∀ errors : List Bool, errors.length ≤ n → errors.count true = k → syndrome c.poly c.poly errors ≠ 0

/-- Any two messages of 80 bits with their checksums differ in at least five bits. -/
theorem detects_bch {k : Nat} (hpos : 0 < k) (hle : k ≤ 4) : bch.Detects 80 k := by
  intro errors hlen hcount
  have hsearch : avoids bch.poly (reached bch.poly 79 (shiftBit bch.poly bch.poly)) 79 2
      (shiftBit bch.poly bch.poly) bch.poly = true := by decide +kernel
  exact syndrome_ne_zero_of_noCancel rfl (noCancel_of_avoids_reached hsearch) hlen (by omega) (by omega)

/-- No two of the first 704 powers of `x` have the same remainder, and `x + 1` divides the
generator. -/
theorem detects_ccitt {k : Nat} (h : 0 < k ∧ k ≤ 3 ∨ k % 2 = 1) : ccitt.Detects 704 k := by
  intro errors hlen hcount
  by_cases hodd : k % 2 = 1
  · exact syndrome_ne_zero_of_odd rfl (hcount ▸ hodd)
  · have hsearch : avoids ccitt.poly 1 703 1 (shiftBit ccitt.poly ccitt.poly) ccitt.poly = true := by
      decide +kernel
    exact syndrome_ne_zero_of_noCancel rfl (noCancel_of_avoids (by decide) hsearch) hlen
      (by omega) (by omega)

end MeterRadio.Checksum
