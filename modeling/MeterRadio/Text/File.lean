/-!
# Text files

The content of a text file, or why there is none.
-/

namespace MeterRadio

/-- Why a text file cannot be read. -/
inductive FileError
  /-- There is no such file. -/
  | notFound
  /-- Its bytes are not UTF-8. -/
  | notText
  deriving DecidableEq, Repr

/-- The wording of a file error. -/
def FileError.message : FileError → String
  | notFound => "No such file or directory (os error 2)"
  | notText => "stream did not contain valid UTF-8"

/-- The text in a file with the given bytes; `none` stands for a file that is not there. -/
def readText : Option ByteArray → Except FileError String
  | none => .error .notFound
  | some bytes =>
    match String.fromUTF8? bytes with
    | some text => .ok text
    | none => .error .notText

end MeterRadio
