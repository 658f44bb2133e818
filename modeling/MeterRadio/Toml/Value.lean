import MeterRadio.Decimal.Shortest

/-!
# TOML values

What is left of a TOML document once its syntax is gone: a tree of tables, arrays and plain values.
Tables keep the order of their keys. It no longer matters which of the several spellings of a table
or an array was used.
-/

namespace MeterRadio.Toml

/-- A value of a document. -/
inductive Value
  | string (s : String)
  /-- A whole number of 64 bits. -/
  | integer (n : Int)
  | float (x : Decimal.Binary64)
  | boolean (b : Bool)
  /-- A date, a time or both. Nothing in this library asks which. -/
  | dateTime
  | array (xs : List Value)
  /-- Named values, no name twice. -/
  | table (entries : List (String × Value))

namespace Value

mutual

/-- Whether two values are the same. -/
def same : Value → Value → Bool
  | .string s, .string t => s = t
  | .integer m, .integer n => m = n
  | .float x, .float y => x = y
  | .boolean b, .boolean c => b = c
  | .dateTime, .dateTime => true
  | .array vs, .array ws => sameElements vs ws
  | .table es, .table fs => sameEntries es fs
  | _, _ => false
termination_by structural v => v

def sameElements : List Value → List Value → Bool
  | [], [] => true
  | v :: vs, w :: ws => same v w && sameElements vs ws
  | _, _ => false
termination_by structural vs => vs

def sameEntry : String × Value → String × Value → Bool
  | (key, v), (key', w) => key = key' && same v w
termination_by structural e => e

def sameEntries : List (String × Value) → List (String × Value) → Bool
  | [], [] => true
  | e :: es, f :: fs => sameEntry e f && sameEntries es fs
  | _, _ => false
termination_by structural es => es

end

mutual

theorem same_iff (v w : Value) : same v w = true ↔ v = w := by
  cases v with
  | array vs => cases w <;> simp [same, sameElements_iff vs]
  | table es => cases w <;> simp [same, sameEntries_iff es]
  | _ => cases w <;> simp [same]
termination_by structural v

theorem sameElements_iff (vs ws : List Value) : sameElements vs ws = true ↔ vs = ws := by
  cases vs with
  | nil => cases ws <;> simp [sameElements]
  | cons v vs => cases ws <;> simp [sameElements, same_iff v, sameElements_iff vs]
termination_by structural vs

theorem sameEntry_iff (e f : String × Value) : sameEntry e f = true ↔ e = f := by
  obtain ⟨key, v⟩ := e
  obtain ⟨key', w⟩ := f
  simp [sameEntry, same_iff v]
termination_by structural e

theorem sameEntries_iff (es fs : List (String × Value)) : sameEntries es fs = true ↔ es = fs := by
  cases es with
  | nil => cases fs <;> simp [sameEntries]
  | cons e es => cases fs <;> simp [sameEntries, sameEntry_iff e, sameEntries_iff es]
termination_by structural es

end

instance : DecidableEq Value :=
  fun v w => decidable_of_iff _ (same_iff v w)

end Value

end MeterRadio.Toml
