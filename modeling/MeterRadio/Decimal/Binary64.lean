/-!
# Binary floating-point numbers

Decimal texts are read as binary numbers with 53 significant bits, the nearest one to what the text
says, and of two equally near ones the one whose last bit is 0. Values are kept exactly, as a whole
number times a power of two, so that everything that is said about a number can be computed with
natural numbers.
-/

namespace MeterRadio.Decimal

/-- The whole number nearest to `n / d`; a half goes to the even neighbour. -/
def roundDiv (n d : Nat) : Nat :=
  let k := n / d
  let r := n % d
  if d < 2 * r ∨ (2 * r = d ∧ k % 2 = 1) then k + 1 else k

structure Fraction where
  num : Nat
  den : Nat
  deriving Repr

namespace Fraction

/-- The fraction times `base ^ e`. -/
def scale (x : Fraction) (base : Nat) (e : Int) : Fraction :=
  if 0 ≤ e then { x with num := x.num * Nat.pow base e.toNat }
  else { x with den := x.den * Nat.pow base (-e).toNat }

/-- Whether the fraction is at most another one. -/
def le (x y : Fraction) : Bool :=
  x.num * y.den ≤ y.num * x.den

/-- Whether the fraction is less than another one. -/
def lt (x y : Fraction) : Bool :=
  x.num * y.den < y.num * x.den

/-- The largest `e` with `2 ^ e ≤ x`, for a positive fraction. -/
def log2 (x : Fraction) : Int :=
  let e : Int := x.num.log2 - x.den.log2
  if (Fraction.scale ⟨1, 1⟩ 2 e).le x then e else e - 1

end Fraction

/-- A binary floating-point number. -/
inductive Binary64
  /-- The number `m * 2 ^ q`, negated if `negative`. -/
  | finite (negative : Bool) (m : Nat) (q : Int)
  /-- A number too large for the format. -/
  | infinite (negative : Bool)
  | nan
  deriving DecidableEq, Repr

namespace Binary64

/-- Significant bits. -/
def precision : Nat := 53

/-- Exponent of the smallest positive number. -/
def minExponent : Int := -1074

/-- Largest exponent of a number with all significant bits. -/
def maxExponent : Int := 971

/-- The number nearest to a fraction with the given sign. -/
def ofFraction (negative : Bool) (x : Fraction) : Binary64 :=
  if x.num = 0 then finite negative 0 minExponent
  else
    let q := max (x.log2 - (precision - 1)) minExponent
    let y := x.scale 2 (-q)
    let m := roundDiv y.num y.den
    let (m, q) := if m = 1 <<< precision then (1 <<< (precision - 1), q + 1) else (m, q)
    if maxExponent < q then infinite negative else finite negative m q

/-- The number nearest to `digits * 10 ^ e`. Where the exponent alone decides that the result is
zero or too large, no power of ten is computed. -/
def ofDecimal (negative : Bool) (digits : Nat) (e : Int) : Binary64 :=
  let magnitude := e + (Nat.toDigits 10 digits).length
  if digits = 0 ∨ magnitude < -400 then finite negative 0 minExponent
  else if 400 < magnitude then infinite negative
  else ofFraction negative (Fraction.scale ⟨digits, 1⟩ 10 e)

/-- The exact value of `m * 2 ^ q`. -/
def value (m : Nat) (q : Int) : Fraction :=
  Fraction.scale ⟨m, 1⟩ 2 q

end Binary64

end MeterRadio.Decimal
