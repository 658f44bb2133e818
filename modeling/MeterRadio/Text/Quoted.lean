import MeterRadio.Bits.Basic
import MeterRadio.Text.Visible

/-!
# Quoted text

A string that is quoted in a message for people stands between double quotes. The quote, the
backslash and the usual control characters are written with a backslash and a letter, and a
character that would not show as it is by its code point in hexadecimal, `\u{301}`.
-/

namespace MeterRadio.Text

/-- The lower-case hexadecimal digits of a number without leading zeros. -/
def hexNumber (n : Nat) : List Char :=
  Nat.toDigits 16 n

/-- A character inside quotes. -/
def quoteChar (c : Char) : List Char :=
  if c = '"' then ['\\', '"']
  else if c = '\\' then ['\\', '\\']
  else if c = '\n' then ['\\', 'n']
  else if c = '\r' then ['\\', 'r']
  else if c = '\t' then ['\\', 't']
  else if c = Char.ofNat 0 then ['\\', '0']
  else if shows c then [c]
  else ['\\', 'u', '\x7b'] ++ hexNumber c.toNat ++ ['\x7d']

/-- A string in quotes. -/
def quote (s : String) : String :=
  String.ofList ('"' :: s.toList.flatMap quoteChar ++ ['"'])

end MeterRadio.Text
