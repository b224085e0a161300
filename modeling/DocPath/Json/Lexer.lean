import DocPath.Json.Number
import DocPath.Json.Token

/-!
# Cutting JSON text into tokens

Blanks between tokens are spaces, tabs and line ends. Inside quotes a control character has to be
escaped, and an escaped surrogate has to be half of a pair.
-/

namespace DocPath.Json

/-- Blanks between tokens. -/
def isBlank (c : Char) : Bool := c = ' ' || c = '\t' || c = '\n' || c = '\r'

/-- The number that four hexadecimal digits denote. -/
def codeUnit? (a b c d : Char) : Option Nat := Numeral.natOfDigits? 16 [a, b, c, d]

/-- The character of an escape by one letter. -/
def unescape? (c : Char) : Option Char :=
  if c = '\x22' then some '\x22'
  else if c = '\\' then some '\\'
  else if c = '/' then some '/'
  else if c = 'b' then some '\x08'
  else if c = 'f' then some '\x0c'
  else if c = 'n' then some '\n'
  else if c = 'r' then some '\r'
  else if c = 't' then some '\t'
  else none

/-- Puts a character in front of a text that was read. -/
def prepend (c : Char) (result : Option (List Char × List Char)) : Option (List Char × List Char) :=
  result.map fun (text, rest) => (c :: text, rest)

/-- Reads a text up to its closing quote. -/
def readText? : List Char → Option (List Char × List Char)
  | [] => none
  | '\x22' :: rest => some ([], rest)
  | '\\' :: 'u' :: a :: b :: c :: d :: rest =>
    match codeUnit? a b c d with
    | none => none
    | some unit =>
      if unit < 0xD800 ∨ 0xE000 ≤ unit then prepend (Char.ofNat unit) (readText? rest)
      else if 0xDC00 ≤ unit then none
      else match rest with
        | '\\' :: 'u' :: e :: f :: g :: h :: more =>
          match codeUnit? e f g h with
          | none => none
          | some low =>
            if low < 0xDC00 ∨ 0xE000 ≤ low then none
            else prepend (Char.ofNat (0x10000 + (unit - 0xD800) * 0x400 + (low - 0xDC00)))
              (readText? more)
        | _ => none
  | '\\' :: c :: rest =>
    match unescape? c with
    | none => none
    | some x => prepend x (readText? rest)
  | c :: rest => if c < ' ' then none else prepend c (readText? rest)

/-- The sign that a character is. -/
def sign? (c : Char) : Option Token :=
  if c = '[' then some .openArray
  else if c = ']' then some .closeArray
  else if c = '\x7b' then some .openObject
  else if c = '\x7d' then some .closeObject
  else if c = ',' then some .comma
  else if c = ':' then some .colon
  else none

/-- Reads one token at the start of a text that is not blank there. -/
def readToken? : List Char → Option (Token × List Char)
  | [] => none
  | 'n' :: 'u' :: 'l' :: 'l' :: rest => some (.atom .null, rest)
  | 't' :: 'r' :: 'u' :: 'e' :: rest => some (.atom (.bool true), rest)
  | 'f' :: 'a' :: 'l' :: 's' :: 'e' :: rest => some (.atom (.bool false), rest)
  | '\x22' :: rest => (readText? rest).map fun (s, rest) => (.atom (.text (String.ofList s)), rest)
  | c :: rest => match sign? c with
    | some token => some (token, rest)
    | none => (readNumber? (c :: rest)).map fun (a, rest) => (.atom a, rest)

/-- Cuts a text into tokens; `fuel` bounds how many there can be. -/
def lexFrom : (fuel : Nat) → List Char → Option (List Token)
  | 0, cs => if (cs.dropWhile isBlank).isEmpty then some [] else none
  | fuel + 1, cs =>
    match cs.dropWhile isBlank with
    | [] => some []
    | c :: rest => match readToken? (c :: rest) with
      | none => none
      | some (token, rest) => (lexFrom fuel rest).map (token :: ·)

/-- Cuts a text into tokens. -/
def lex (cs : List Char) : Option (List Token) := lexFrom cs.length cs

end DocPath.Json
