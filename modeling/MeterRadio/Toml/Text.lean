/-!
# Characters, keys and strings of TOML

A reader takes the characters that are left of a document and gives what it has read together with
the characters after it, or nothing if the document is not well-formed there.

Strings come in four styles. Between double quotes a backslash starts an escape, between single
quotes it is a character like any other; between three quotes line breaks are allowed. There, one or
two quotes are part of the string, a line break right after the opening quotes is dropped, and in the
style with escapes a backslash at the end of a line joins it to the next character that is no blank.
-/

namespace MeterRadio.Toml

/-- Reads a piece of a document. -/
abbrev Reader (α : Type) := List Char → Option (α × List Char)

/-! ## Characters -/

/-- Space and tab. -/
def isBlank (c : Char) : Bool :=
  c == ' ' || c == '\t'

/-- Characters that may stand in a comment: all but control characters other than the tab. -/
def isPlain (c : Char) : Bool :=
  c == '\t' || (32 ≤ c.toNat && c.toNat ≠ 127)

def isDigit (c : Char) : Bool :=
  '0' ≤ c && c ≤ '9'

/-- The value of a hexadecimal digit of either case. -/
def hexValue? (c : Char) : Option Nat :=
  if isDigit c then some (c.toNat - 48)
  else if 'a' ≤ c && c ≤ 'f' then some (c.toNat - 87)
  else if 'A' ≤ c && c ≤ 'F' then some (c.toNat - 55)
  else none

def skipBlanks (cs : List Char) : List Char :=
  cs.dropWhile isBlank

/-- The characters after a line break at the start, if there is one. -/
def afterNewline? : List Char → Option (List Char)
  | '\n' :: cs => some cs
  | '\r' :: '\n' :: cs => some cs
  | _ => none

/-- The characters after a comment at the start, or all of them if there is none. -/
def skipComment : List Char → List Char
  | '#' :: cs => cs.dropWhile isPlain
  | cs => cs

/-- The characters of the next line, if nothing but blanks and a comment is left of this one. -/
def endLine? (cs : List Char) : Option (List Char) :=
  match skipComment (skipBlanks cs) with
  | [] => some []
  | cs => afterNewline? cs

/-! ## Strings -/

/-- A style of writing strings. -/
structure StringStyle where
  /-- The quote at both ends. -/
  quote : Char
  /-- Whether a backslash starts an escape. -/
  escapes : Bool
  /-- Whether the string may have several lines. -/
  multiline : Bool
  deriving DecidableEq, Repr

/-- The character that a backslash and a letter stand for. -/
def escapedChar? (c : Char) : Option Char :=
  if c = 'b' then some (Char.ofNat 8)
  else if c = 't' then some '\t'
  else if c = 'n' then some '\n'
  else if c = 'f' then some (Char.ofNat 12)
  else if c = 'r' then some '\r'
  else if c = '"' then some '"'
  else if c = '\\' then some '\\'
  else none

/-- The character whose code point has the given hexadecimal digits. -/
def charOfHex? (digits : List Char) : Option Char := do
  let values ← digits.mapM hexValue?
  let code := values.foldl (fun n d => 16 * n + d) 0
  if code.isValidChar then some (Char.ofNat code) else none

/-- Whether a line ends here but for blanks. -/
def lineEnds (cs : List Char) : Bool :=
  (afterNewline? (skipBlanks cs)).isSome

/-- Reads the rest of a string after its opening quotes. While `joining`, blanks and line breaks are
dropped. -/
def stringRest (st : StringStyle) : (joining : Bool) → Reader (List Char)
  | _, [] => none
  | joining, c :: cs =>
    let more (x : Char) (r : Option (List Char × List Char)) := r.map fun (xs, r) => (x :: xs, r)
    if joining && (isBlank c || c == '\n') then stringRest st true cs
    else if c = st.quote then
      if st.multiline then
        match cs with
        | a :: b :: r =>
          if a = c ∧ b = c then
            match r with
            | d :: r' =>
              if d = c then
                match r' with
                | e :: r'' => if e = c then some ([c, c], r'') else some ([c], r')
                | [] => some ([c], r')
              else some ([], r)
            | [] => some ([], r)
          else more c (stringRest st false cs)
        | _ => none
      else some ([], cs)
    else if c = '\\' ∧ st.escapes then
      if st.multiline && lineEnds cs then stringRest st true cs
      else
        match cs with
        | 'u' :: a :: b :: c :: d :: r =>
          match charOfHex? [a, b, c, d] with
          | some x => more x (stringRest st false r)
          | none => none
        | 'U' :: a :: b :: c :: d :: e :: f :: g :: h :: r =>
          match charOfHex? [a, b, c, d, e, f, g, h] with
          | some x => more x (stringRest st false r)
          | none => none
        | e :: r =>
          match escapedChar? e with
          | some x => more x (stringRest st false r)
          | none => none
        | [] => none
    else if c = '\r' ∧ st.multiline then
      match cs with
      | '\n' :: r => if joining then stringRest st true r else more '\n' (stringRest st false r)
      | _ => none
    else if c = '\n' ∧ st.multiline then more '\n' (stringRest st false cs)
    else if isPlain c then more c (stringRest st false cs)
    else none

/-- Reads a string in one of the styles with several lines, after its opening quotes. -/
def multilineRest (quote : Char) (cs : List Char) : Option (String × List Char) :=
  let st : StringStyle := { quote, escapes := quote == '"', multiline := true }
  (stringRest st false ((afterNewline? cs).getD cs)).map fun (s, r) => (String.ofList s, r)

/-- Reads a string on one line, after its opening quote. -/
def lineRest (quote : Char) (cs : List Char) : Option (String × List Char) :=
  let st : StringStyle := { quote, escapes := quote == '"', multiline := false }
  (stringRest st false cs).map fun (s, r) => (String.ofList s, r)

def string : Reader String
  | '"' :: '"' :: '"' :: cs => multilineRest '"' cs
  | '\'' :: '\'' :: '\'' :: cs => multilineRest '\'' cs
  | '"' :: cs => lineRest '"' cs
  | '\'' :: cs => lineRest '\'' cs
  | _ => none

/-! ## Keys -/

/-- Characters of a key without quotes. -/
def isBare (c : Char) : Bool :=
  isDigit c || ('a' ≤ c && c ≤ 'z') || ('A' ≤ c && c ≤ 'Z') || c == '_' || c == '-'

/-- Reads one part of a key. -/
def keyPart : Reader String
  | '"' :: cs => lineRest '"' cs
  | '\'' :: cs => lineRest '\'' cs
  | cs =>
    match cs.takeWhile isBare with
    | [] => none
    | name => some (String.ofList name, cs.dropWhile isBare)

/-- Most parts that a key can have, and one more than values can be nested. -/
def nestingLimit : Nat := 80

/-- Reads the parts of a key, at most `rounds` of them, with blanks around each. -/
def keyParts : (rounds : Nat) → Reader (List String)
  | 0, _ => none
  | rounds + 1, cs => do
    let (part, cs) ← keyPart (skipBlanks cs)
    match skipBlanks cs with
    | '.' :: cs =>
      let (parts, cs) ← keyParts rounds cs
      return (part :: parts, cs)
    | cs => return ([part], cs)

/-- Reads a key as the parts before the last dot and the part after it. -/
def key : Reader (List String × String) := fun cs => do
  let (parts, cs) ← keyParts (nestingLimit - 1) cs
  let last ← parts.getLast?
  return ((parts.dropLast, last), cs)

end MeterRadio.Toml
