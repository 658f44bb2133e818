import MeterRadio.Bits.Basic

/-!
# JSON text

The values that output lines are made of and their text. The text is compact and has no line break
in it: inside strings, control characters are written as escapes. Objects keep the order of their
fields.
-/

namespace MeterRadio.Report

/-- A JSON value with natural numbers only. -/
inductive Json
  | number (n : Nat)
  | string (s : String)
  | array (xs : List Json)
  /-- Named values in order. -/
  | object (fields : List (String × Json))

/-- Whether a character is a space or a visible one of ASCII. No line break is. -/
def isPrintable (c : Char) : Bool :=
  32 ≤ c.toNat && c.toNat < 127

namespace Json

/-- A character inside a string. The quote, the backslash and control characters are escaped, the
latter by a letter where there is one and by four hexadecimal digits otherwise. -/
def escape (c : Char) : List Char :=
  if c = '"' then ['\\', '"']
  else if c = '\\' then ['\\', '\\']
  else if c = '\n' then ['\\', 'n']
  else if c = '\r' then ['\\', 'r']
  else if c = '\t' then ['\\', 't']
  else if c = Char.ofNat 8 then ['\\', 'b']
  else if c = Char.ofNat 12 then ['\\', 'f']
  else if c.toNat < 32 then ['\\', 'u', '0', '0', hexDigit (c.toNat / 16), hexDigit (c.toNat % 16)]
  else [c]

/-- The text of a string. -/
def renderString (s : String) : List Char :=
  '"' :: s.toList.flatMap escape ++ ['"']

/-- The decimal text of a number. -/
def renderNumber (n : Nat) : List Char :=
  n.repr.toList

mutual

/-- The text of a value. -/
def renderChars : Json → List Char
  | .number n => renderNumber n
  | .string s => renderString s
  | .array xs => '[' :: renderElements xs
  | .object fields => '{' :: renderFields fields
termination_by structural x => x

/-- The text of the elements of an array, up to the closing bracket. -/
def renderElements : List Json → List Char
  | [] => [']']
  | x :: xs => renderChars x ++ (if xs.isEmpty then [] else [',']) ++ renderElements xs
termination_by structural x => x

/-- The text of a field. -/
def renderField : String × Json → List Char
  | (name, x) => renderString name ++ ':' :: renderChars x
termination_by structural x => x

/-- The text of the fields of an object, up to the closing brace. -/
def renderFields : List (String × Json) → List Char
  | [] => ['}']
  | f :: fs => renderField f ++ (if fs.isEmpty then [] else [',']) ++ renderFields fs
termination_by structural x => x

end

/-- The text of a value. -/
def render (x : Json) : String :=
  String.ofList x.renderChars

end Json

end MeterRadio.Report
