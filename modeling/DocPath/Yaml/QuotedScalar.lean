import DocPath.Number.Numeral
import DocPath.Yaml.PlainScalar

/-!
# Scalars in quotes

Between single quotes only the quote itself is special and is written twice. Between double quotes a
backslash begins an escape; before a line end it takes that line end away.
-/

namespace DocPath.Yaml

/-- A word of a quoted scalar: what it reads as, how many characters it took, and whether it ended
with an escaped line end. -/
structure Word where
  text : List Char
  size : Nat
  escaped : Bool

/-- A word with something in front that took `size` characters. -/
def Word.prepend (c : Char) (size : Nat) (word : Word) : Word :=
  { word with text := c :: word.text, size := word.size + size }

/-- A word between single quotes. -/
def singleWord : List Char → Word
  | [] => ⟨[], 0, false⟩
  | '\x27' :: '\x27' :: rest => (singleWord rest).prepend '\x27' 2
  | c :: rest =>
    if c = '\x27' || isBlank c || isBreak c then ⟨[], 0, false⟩
    else (singleWord rest).prepend c 1

/-- The character that an escape by one letter stands for. -/
def escaped? (c : Char) : Option Char :=
  if c = '0' then some '\x00'
  else if c = 'a' then some '\x07'
  else if c = 'b' then some '\x08'
  else if c = 't' ∨ c = '\t' then some '\t'
  else if c = 'n' then some '\n'
  else if c = 'v' then some '\x0b'
  else if c = 'f' then some '\x0c'
  else if c = 'r' then some '\r'
  else if c = 'e' then some '\x1b'
  else if c = ' ' ∨ c = '\x22' ∨ c = '/' ∨ c = '\\' then some c
  else if c = 'N' then some '\x85'
  else if c = '_' then some '\u00a0'
  else if c = 'L' then some '\u2028'
  else if c = 'P' then some '\u2029'
  else none

/-- The character with a code in hexadecimal digits. -/
def coded? (digits : List Char) : Option Char :=
  match Numeral.natOfDigits? 16 digits with
  | some n => if n < 0xD800 ∨ (0xE000 ≤ n ∧ n ≤ 0x10FFFF) then some (Char.ofNat n) else none
  | none => none

/-- Puts a character that took `size` characters in front of a word that was read. -/
def prependTo (size : Nat) (c : Option Char) (word : Option Word) : Option Word :=
  match c, word with
  | some c, some word => some (word.prepend c size)
  | _, _ => none

/-- A word between double quotes. -/
def doubleWord : List Char → Option Word
  | [] => some ⟨[], 0, false⟩
  | '\\' :: 'x' :: a :: b :: rest => prependTo 4 (coded? [a, b]) (doubleWord rest)
  | '\\' :: 'u' :: a :: b :: c :: d :: rest => prependTo 6 (coded? [a, b, c, d]) (doubleWord rest)
  | '\\' :: 'U' :: a :: b :: c :: d :: e :: f :: g :: h :: rest =>
    prependTo 10 (coded? [a, b, c, d, e, f, g, h]) (doubleWord rest)
  | '\\' :: c :: rest =>
    if isBreak c then some ⟨[], 2, true⟩ else prependTo 2 (escaped? c) (doubleWord rest)
  | c :: rest =>
    if c = '\\' then none
    else if c = '\x22' || isBlank c || isBreak c then some ⟨[], 0, false⟩
    else prependTo 1 (some c) (doubleWord rest)

/-- A word between quotes of either kind. -/
def quotedWord (single : Bool) (cs : List Char) : Option Word :=
  if single then some (singleWord cs) else doubleWord cs

/-- Reads words and gaps up to the closing quote; `fuel` bounds how many words there can be. -/
def quotedWords (single : Bool) : (fuel : Nat) → Cursor → Option (List Char × Cursor)
  | 0, _ => none
  | fuel + 1, cur =>
    if cur.atDocumentSign || cur.rest.isEmpty then none
    else match quotedWord single cur.rest with
      | none => none
      | some word =>
        let cur := cur.skip word.size
        if cur.peek? = some (if single then '\x27' else '\x22') then some (word.text, cur.skip 1)
        else
          let gap := if word.escaped then Gap.escaped else Gap.none
          match takeGap 0 gap cur.toPosition cur.rest with
          | none => none
          | some (gap, cur) => (quotedWords single fuel cur).map fun (more, cur) =>
            (word.text ++ gap.text ++ more, cur)

/-- Reads a scalar that begins with a quote. -/
def takeQuoted (single : Bool) (cur : Cursor) : Option (String × Cursor) :=
  (quotedWords single (cur.rest.length + 1) (cur.skip 1)).map fun (text, cur) =>
    (String.ofList text, cur)

end DocPath.Yaml
