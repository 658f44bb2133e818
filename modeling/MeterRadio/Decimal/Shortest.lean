import MeterRadio.Decimal.Binary64

/-!
# Decimal texts of binary numbers

The usual text of a binary number has the fewest digits that are read back as the same number, and
of several such texts the one nearest to it. `shortest` finds these digits: it tries the two
neighbours of the number among the multiples of a power of ten, for smaller and smaller powers, and
takes the first power for which one of them is read back. It starts with the power above the number,
since a number a little below `10 ^ e` may well be read from `10 ^ e` itself.

Numbers are written positionally, whatever their size. `Binary64.text` is the text with the fewest
digits, `Binary64.tenths` the one with exactly one place after the point.
-/

namespace MeterRadio.Decimal

/-- The decimal number `digits * 10 ^ exponent`. -/
structure Digits where
  /-- The digits as one number. -/
  digits : Nat
  /-- The power of ten of the last digit. -/
  exponent : Int
  deriving DecidableEq, Repr

namespace Binary64

/-- The numbers between `m * 2 ^ q` and its neighbours that are read as it: those not beyond the
midpoints. Below a power of two the neighbour is only half as far away. Midpoints belong to the even
number. -/
def reads (m : Nat) (q : Int) (x : Fraction) : Bool :=
  let below := if m = 1 <<< (precision - 1) ∧ minExponent < q then 4 * m - 1 else 4 * m - 2
  let low := value below (q - 2)
  let high := value (4 * m + 2) (q - 2)
  if m % 2 = 0 then low.le x && x.le high else low.lt x && x.lt high

/-- The largest `e` with `10 ^ e ≤ x`, for a positive fraction, found upwards from a lower
estimate. -/
def log10From (x : Fraction) (e : Int) : (rounds : Nat) → Int
  | 0 => e
  | rounds + 1 =>
    if (Fraction.scale ⟨1, 1⟩ 10 (e + 1)).le x then log10From x (e + 1) rounds else e

/-- The largest `e` with `10 ^ e ≤ x`, for a positive fraction `x`. The estimate from the binary
logarithm is at most a few too low. -/
def log10 (x : Fraction) : Int :=
  let b := x.log2
  log10From x (if 0 ≤ b then b * 30102 / 100000 - 1 else b * 30103 / 100000 - 1) 4

/-- The multiple of `10 ^ e` next to `m * 2 ^ q` that is read as it, if there is one. The nearer one
wins, and the larger one of two equally near. -/
def onGrid? (m : Nat) (q : Int) (e : Int) : Option Digits :=
  let x := value m q
  let y := x.scale 10 (-e)
  let low := y.num / y.den
  let grid (k : Nat) : Fraction := Fraction.scale ⟨k, 1⟩ 10 e
  let upper := low + 1
  let lowReads := reads m q (grid low)
  let upperReads := reads m q (grid upper)
  let upperNearer := (2 * low + 1) * y.den ≤ 2 * y.num
  if upperReads && (!lowReads || upperNearer) then some ⟨upper, e⟩
  else if lowReads then some ⟨low, e⟩
  else none

/-- The first multiple that is found of `10 ^ e`, `10 ^ (e - 1)`, …; after `rounds` of them the nearest
multiple of the next power, read back or not. -/
def shortestFrom (m : Nat) (q : Int) (e : Int) : (rounds : Nat) → Digits
  | 0 =>
    let x := (value m q).scale 10 (-e)
    ⟨roundDiv x.num x.den, e⟩
  | rounds + 1 =>
    match onGrid? m q e with
    | some d => d
    | none => shortestFrom m q (e - 1) rounds

/-- The fewest digits that are read as `m * 2 ^ q`. From the power above the number on, 18 powers
are tried, the last one for 17 digits, which are always enough. -/
def shortest (m : Nat) (q : Int) : Digits :=
  if m = 0 then ⟨0, 0⟩ else shortestFrom m q (log10 (value m q) + 1) 18

end Binary64

/-- The positional text of a decimal number. A point is written only if digits follow it. -/
def Digits.positional (d : Digits) : String :=
  let text := Nat.toDigits 10 d.digits
  if 0 ≤ d.exponent then String.ofList (text ++ List.replicate d.exponent.toNat '0')
  else
    let places := (-d.exponent).toNat
    let padded := List.replicate (places + 1 - text.length) '0' ++ text
    let whole := padded.length - places
    String.ofList (padded.take whole ++ '.' :: padded.drop whole)

namespace Binary64

/-- The text with the fewest digits, with `.0` after a whole number. -/
def text : Binary64 → String
  | finite negative m q =>
    let d := shortest m q
    let sign := if negative then "-" else ""
    sign ++ d.positional ++ (if 0 ≤ d.exponent then ".0" else "")
  | infinite negative => if negative then "-inf" else "inf"
  | nan => "NaN"

/-- The text with one place after the point, the exact value rounded to it. -/
def tenths : Binary64 → String
  | finite negative m q =>
    let x := (value m q).scale 10 1
    let sign := if negative then "-" else ""
    sign ++ Digits.positional ⟨roundDiv x.num x.den, -1⟩
  | x => x.text

end Binary64

end MeterRadio.Decimal
