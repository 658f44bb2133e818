import MeterRadio.Line.Manchester

/-!
# Lead-ins

A sender lets data zeros go before a message, and a receiver that is switched on in time may take a low
sample before the first of them. The stray sample moves the symbols to the other alignment.

In the alignment of the sender the data bits follow one another on the line. In the other one every
bit is the end of a symbol and the start of the next one: it tells where two zeros follow each other
(`gaps`).
-/

namespace MeterRadio.Line

/-- What is on a line before a message: a stray low sample or none, and data zeros. -/
def leadIn (stray : Bool) (zeros : Nat) : List Bool :=
  List.replicate stray.toNat false ++ (List.replicate zeros false).flatMap symbol

/-- What data bits look like in the alignment that is not theirs. -/
def gaps : (bits : List Bool) → List Bool
  | a :: b :: bits => (!a && !b) :: gaps (b :: bits)
  | _ => []

/-- The last `n` bits of a stream that was silent forever before `bits`. -/
def endOf (bits : List Bool) (n : Nat) : List Bool :=
  (List.replicate n false ++ bits).drop bits.length

end MeterRadio.Line
