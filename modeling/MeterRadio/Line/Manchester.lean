import MeterRadio.Bits.Basic

/-!
# Line samples and the Manchester code

The line is sampled twice per data bit. In the Manchester code a data 1 is a high sample followed by
a low one and a data 0 a low sample followed by a high one, so every bit has an edge in its middle.

Captured samples are kept as text, one `0` or `1` for each sample; all other characters are there
for the reader and carry no sample.
-/

namespace MeterRadio.Line

/-- The two samples of a data bit. -/
def symbol (bit : Bool) : List Bool :=
  [bit, !bit]

/-- The samples of a byte string, each byte most significant bit first. -/
def manchester (d : Bytes) : List Bool :=
  (Bytes.bits d).flatMap symbol

/-- The data bit that two consecutive samples stand for: high then low is a 1, anything else a
0. -/
def dataBit (earlier later : Bool) : Bool :=
  earlier && !later

@[simp] theorem dataBit_symbol (bit : Bool) : dataBit bit (!bit) = bit := by
  cases bit <;> rfl

@[simp] theorem length_manchester (d : Bytes) : (manchester d).length = 16 * d.length := by
  have h : ∀ bs : List Bool, (bs.flatMap symbol).length = 2 * bs.length := by
    intro bs
    induction bs with
    | nil => rfl
    | cons b bs ih => simp_all [symbol]; omega
  rw [manchester, h, Bytes.length_bits]
  omega

/-- The sample that a character of a capture stands for, if any. -/
def sampleOfChar? (c : Char) : Option Bool :=
  if c = '0' then some false else if c = '1' then some true else none

/-- The character of a sample. -/
def charOfSample (s : Bool) : Char :=
  if s then '1' else '0'

/-- The samples in the text of a capture. -/
def parseSamples (text : String) : List Bool :=
  text.toList.filterMap sampleOfChar?

/-- The text of a capture. -/
def formatSamples (samples : List Bool) : String :=
  String.ofList (samples.map charOfSample)

/-- Samples survive being written as text. -/
theorem parseSamples_formatSamples (samples : List Bool) :
    parseSamples (formatSamples samples) = samples := by
  have h : sampleOfChar? ∘ charOfSample = some := by
    funext s
    cases s <;> rfl
  rw [parseSamples, formatSamples, String.toList_ofList, List.filterMap_map, h,
    List.filterMap_some]

end MeterRadio.Line
