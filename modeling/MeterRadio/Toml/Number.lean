import MeterRadio.Toml.Text
import MeterRadio.Toml.Value

/-!
# Numbers and dates of TOML

Digits may be separated by single underscores. A decimal integer has no leading zeros; one with a
prefix for another base has no sign. An integer must fit into 64 bits. A number with a fraction or an
exponent is a floating-point number, and must not be larger than the format allows.

Dates and times are checked, month lengths and leap years included, but not kept.
-/

namespace MeterRadio.Toml

open Decimal (Binary64)

/-- The digits at the start, each of them with at most one underscore before it, and the rest. -/
def moreDigits (digit : Char → Bool) : List Char → List Char × List Char
  | [] => ([], [])
  | '_' :: c :: cs =>
    if digit c then
      let (ds, r) := moreDigits digit cs
      (c :: ds, r)
    else ([], '_' :: c :: cs)
  | c :: cs =>
    if digit c then
      let (ds, r) := moreDigits digit cs
      (c :: ds, r)
    else ([], c :: cs)

/-- Reads digits with single underscores between them, at least one. -/
def digits (digit : Char → Bool) : Reader (List Char)
  | [] => none
  | c :: cs =>
    if digit c then
      let (ds, r) := moreDigits digit cs
      some (c :: ds, r)
    else none

/-- The number with the given digits. -/
def ofDigits (base : Nat) (ds : List Char) : Nat :=
  ds.foldl (fun n c => base * n + (hexValue? c).getD 0) 0

/-- Reads an optional sign; the result says whether it is a minus. -/
def sign : List Char → Bool × List Char
  | '-' :: cs => (true, cs)
  | '+' :: cs => (false, cs)
  | cs => (false, cs)

/-- Reads decimal digits without leading zeros. -/
def wholeDigits : Reader (List Char)
  | '0' :: cs => some (['0'], cs)
  | cs => digits isDigit cs

/-- Whether a number fits into a signed integer of 64 bits. -/
def fitsInt64 (n : Int) : Bool :=
  Int64.minValue.toInt ≤ n && n ≤ Int64.maxValue.toInt

/-- An integer, if it is not too large. -/
def integerOf? (negative : Bool) (n : Nat) : Option Value :=
  let n : Int := if negative then -n else n
  if fitsInt64 n then some (.integer n) else none

/-- Reads the digits of an integer in another base. -/
def integerIn (base : Nat) (cs : List Char) : Option (Value × List Char) := do
  let (ds, cs) ← digits (fun c => (hexValue? c).any (· < base)) cs
  let v ← integerOf? false (ofDigits base ds)
  return (v, cs)

def integer : Reader Value
  | '0' :: 'x' :: cs => integerIn 16 cs
  | '0' :: 'o' :: cs => integerIn 8 cs
  | '0' :: 'b' :: cs => integerIn 2 cs
  | cs => do
    let (negative, cs) := sign cs
    let (ds, cs) ← wholeDigits cs
    let v ← integerOf? negative (ofDigits 10 ds)
    return (v, cs)

/-- Reads the exponent of a number, if it has one. -/
def exponent? (cs : List Char) : Option (Int × List Char) :=
  match cs with
  | c :: cs =>
    if c = 'e' ∨ c = 'E' then do
      let (negative, cs) := sign cs
      let (ds, cs) ← digits isDigit cs
      let n : Int := ofDigits 10 ds
      return (if negative then -n else n, cs)
    else none
  | [] => none

/-- The number with digits before and after the point and an exponent, if it is not too large. -/
def floatOf? (negative : Bool) (whole places : List Char) (e : Int) : Option Value :=
  let x := Binary64.ofDecimal negative (ofDigits 10 (whole ++ places)) (e - places.length)
  if x = .infinite false then none else some (.float x)

def float (cs : List Char) : Option (Value × List Char) :=
  let (negative, cs) := sign cs
  match cs with
  | 'i' :: 'n' :: 'f' :: cs => some (.float (.infinite negative), cs)
  | 'n' :: 'a' :: 'n' :: cs => some (.float .nan, cs)
  | cs => do
    let (whole, cs) ← wholeDigits cs
    match cs with
    | '.' :: cs =>
      let (places, cs) ← digits isDigit cs
      let (e, cs) := (exponent? cs).getD (0, cs)
      let v ← floatOf? negative whole places e
      return (v, cs)
    | cs =>
      let (e, cs) ← exponent? cs
      let v ← floatOf? negative whole [] e
      return (v, cs)

/-! ## Dates and times -/

/-- Reads exactly `n` digits as a number between `low` and `high`. -/
def fixedDigits (n low high : Nat) (cs : List Char) : Option (Nat × List Char) :=
  let ds := cs.take n
  let k := ofDigits 10 ds
  if ds.length = n ∧ ds.all isDigit ∧ low ≤ k ∧ k ≤ high then some (k, cs.drop n) else none

def expect (c : Char) : List Char → Option (List Char)
  | d :: cs => if c = d then some cs else none
  | [] => none

/-- Days of a month. -/
def monthLength (year month : Nat) : Nat :=
  if month = 2 then
    if year % 4 = 0 ∧ (year % 100 ≠ 0 ∨ year % 400 = 0) then 29 else 28
  else if month = 4 ∨ month = 6 ∨ month = 9 ∨ month = 11 then 30
  else 31

/-- Reads `YYYY-MM-DD`. -/
def date (cs : List Char) : Option (List Char) := do
  let (year, cs) ← fixedDigits 4 0 9999 cs
  let (month, cs) ← fixedDigits 2 1 12 (← expect '-' cs)
  let (_, cs) ← fixedDigits 2 1 (monthLength year month) (← expect '-' cs)
  return cs

/-- Reads `HH:MM`. -/
def hourMinute (cs : List Char) : Option (List Char) := do
  let (_, cs) ← fixedDigits 2 0 23 cs
  let (_, cs) ← fixedDigits 2 0 59 (← expect ':' cs)
  return cs

/-- Reads `HH:MM:SS` and any decimals of the second. -/
def time (cs : List Char) : Option (List Char) := do
  let cs ← hourMinute cs
  let (_, cs) ← fixedDigits 2 0 60 (← expect ':' cs)
  match cs with
  | '.' :: d :: r => return if isDigit d then r.dropWhile isDigit else cs
  | _ => return cs

/-- Skips an offset from universal time, if there is one. -/
def skipOffset (cs : List Char) : List Char :=
  match cs with
  | 'Z' :: r => r
  | 'z' :: r => r
  | '+' :: r => (hourMinute r).getD cs
  | '-' :: r => (hourMinute r).getD cs
  | _ => cs

/-- Reads a date, with or without a time, or a time. -/
def dateTime (cs : List Char) : Option (Value × List Char) :=
  match date cs with
  | some r =>
    match r with
    | c :: r' =>
      if c = 'T' ∨ c = 't' ∨ c = ' ' then
        match time r' with
        | some r => some (.dateTime, skipOffset r)
        | none => some (.dateTime, r)
      else some (.dateTime, r)
    | [] => some (.dateTime, r)
  | none => (time cs).map fun r => (.dateTime, r)

/-- Reads a number, a date or a time, whichever of them the text is in its longest form. -/
def number (cs : List Char) : Option (Value × List Char) :=
  (dateTime cs).or ((float cs).or (integer cs))

end MeterRadio.Toml
