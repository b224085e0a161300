import DocPath.Document.Value
import DocPath.Number.Shortest
import DocPath.Yaml.ScalarStyle

/-!
# Writing YAML

Values are written in block style, only empty collections in brackets, two columns further in for
each level. The items of a sequence stand at the indentation of the mapping that holds it. A key
stands before its colon if it takes one line and at most `keySize` bytes, and after a question mark
otherwise. Lines are never folded.

The pen knows what the last sign was, which decides whether a blank or a new line has to come before
the next one.
-/

namespace DocPath.Yaml

/-- YAML writes decimals from `1e-5` up to `1e16` without an exponent and keeps `.0`. -/
def numberStyle : NumberStyle where
  tie := .toEven
  positional := fun point => decide (-5 < point ∧ point ≤ 16)
  wholeSuffix := ".0"
  plus := ""
  nan := ".nan"
  infinity := ".inf"

/-- The longest key before its colon, in bytes. -/
def keySize : Nat := 128

/-- What has been written, last character first. -/
structure Pen where
  written : List Char
  column : Nat
  /-- Whether nothing needs a blank in front here. -/
  spaced : Bool
  /-- Whether only indentation and signs of items stand on this line. -/
  fresh : Bool

namespace Pen

/-- Nothing written yet. -/
def start : Pen := ⟨[], 0, true, true⟩

/-- Writes a character within a line. -/
def put (pen : Pen) (c : Char) : Pen :=
  { pen with written := c :: pen.written, column := pen.column + 1 }

/-- Writes characters within a line. -/
def puts (pen : Pen) (cs : List Char) : Pen := cs.foldl put pen

/-- Writes a line end. -/
def endLine (pen : Pen) (c : Char) : Pen := { pen with written := c :: pen.written, column := 0 }

/-- Writes the blank that has to come before a sign. -/
def space (pen : Pen) : Pen := if pen.spaced then pen else pen.put ' '

/-- Goes to a column at the start of a line, on a new line if need be. -/
def startLine (pen : Pen) (indent : Nat) : Pen :=
  let pen :=
    if !pen.fresh || decide (indent < pen.column) || (pen.column = indent && !pen.spaced) then
      pen.endLine '\n'
    else pen
  { pen.puts (List.replicate (indent - pen.column) ' ') with spaced := true, fresh := true }

/-- Writes a sign that begins a node or a part of one. -/
def sign (pen : Pen) (text : List Char) (keepsFresh : Bool) : Pen :=
  { pen.space.puts text with spaced := false, fresh := pen.fresh && keepsFresh }

/-- Writes a sign that follows right after something. -/
def suffix (pen : Pen) (text : List Char) : Pen :=
  { pen.puts text with spaced := false, fresh := false }

/-- Writes a text without quotes. -/
def plain (pen : Pen) (cs : List Char) : Pen :=
  { pen.space.puts cs with spaced := false, fresh := false }

/-- Writes a text between single quotes, at an indentation; `ended` says that a line end was last.
-/
def singleBody (indent : Nat) : (ended : Bool) → Pen → List Char → Pen
  | ended, pen, [] => if ended then pen.startLine indent else pen
  | ended, pen, c :: rest =>
    if ScalarStyle.isSpace c then singleBody indent ended (pen.put c) rest
    else if ScalarStyle.endsLine c then
      let pen := if !ended && c = '\n' then pen.endLine '\n' else pen
      singleBody indent true { pen.endLine c with fresh := true } rest
    else
      let pen := if ended then pen.startLine indent else pen
      let pen := if c = '\x27' then pen.put c else pen
      singleBody indent false { pen.put c with fresh := false } rest

def single (pen : Pen) (indent : Nat) (cs : List Char) : Pen :=
  (singleBody indent false (pen.sign ['\x27'] false) cs).suffix ['\x27']

/-- The digits of a number in hexadecimal, in upper case, at least `width` of them. -/
def hexDigits (width n : Nat) : List Char :=
  let digits := (Nat.toDigits 16 n).map Char.toUpper
  List.replicate (width - digits.length) '0' ++ digits

/-- The letter of the escape for a character that has one. -/
def escapeLetter? (c : Char) : Option Char :=
  if c = '\x00' then some '0'
  else if c = '\x07' then some 'a'
  else if c = '\x08' then some 'b'
  else if c = '\t' then some 't'
  else if c = '\n' then some 'n'
  else if c = '\x0b' then some 'v'
  else if c = '\x0c' then some 'f'
  else if c = '\r' then some 'r'
  else if c = '\x1b' then some 'e'
  else if c = '\x22' then some '\x22'
  else if c = '\\' then some '\\'
  else if c = '\x85' then some 'N'
  else if c = '\u00a0' then some '_'
  else if c = '\u2028' then some 'L'
  else if c = '\u2029' then some 'P'
  else none

/-- A character between double quotes. -/
def escape (c : Char) : List Char :=
  if isPrintable c && !ScalarStyle.endsLine c && c != '\x22' && c != '\\' then [c]
  else match escapeLetter? c with
    | some letter => ['\\', letter]
    | none =>
      if c.toNat ≤ 0xFF then '\\' :: 'x' :: hexDigits 2 c.toNat
      else if c.toNat ≤ 0xFFFF then '\\' :: 'u' :: hexDigits 4 c.toNat
      else '\\' :: 'U' :: hexDigits 8 c.toNat

def double (pen : Pen) (cs : List Char) : Pen :=
  ((pen.sign ['\x22'] false).puts (cs.flatMap escape)).suffix ['\x22']

/-- What the header of a block says: how far it is indented if it begins with a blank or an empty
line, and what becomes of the line ends after it. -/
def blockHints (cs : List Char) : List Char :=
  (if cs.head?.any fun c => ScalarStyle.isSpace c || ScalarStyle.endsLine c then ['2'] else []) ++
    match cs.reverse with
    | [] => ['-']
    | last :: before =>
      if !ScalarStyle.endsLine last then ['-']
      else if before.head?.all ScalarStyle.endsLine then ['+']
      else []

/-- Writes the lines of a block at an indentation; `ended` says that a line end was last. -/
def literalBody (indent : Nat) : (ended : Bool) → Pen → List Char → Pen
  | _, pen, [] => pen
  | ended, pen, c :: rest =>
    if ScalarStyle.endsLine c then
      literalBody indent true { pen.endLine c with fresh := true } rest
    else
      let pen := if ended then pen.startLine indent else pen
      literalBody indent false { pen.put c with fresh := false } rest

def literal (pen : Pen) (indent : Nat) (cs : List Char) : Pen :=
  let header := ((pen.sign ['|'] false).suffix (blockHints cs)).endLine '\n'
  literalBody indent true { header with spaced := true, fresh := true } cs

/-- Writes a text as a scalar inside a collection at some indentation; at the root there is none. -/
def text (pen : Pen) (outer : Option Nat) (simpleKey : Bool) (s : String) : Pen :=
  let indent := outer.getD 0 + 2
  match ScalarStyle.choose simpleKey s with
  | .plain => pen.plain s.toList
  | .single => pen.single indent s.toList
  | .double => pen.double s.toList
  | .literal => pen.literal indent s.toList

/-- Whether a key may stand before its colon. -/
def isSimpleKey (key : String) : Bool :=
  !ScalarStyle.hasLines key.toList && key.utf8ByteSize ≤ keySize

/-- Writes a key and the sign before its value, at an indentation. -/
def key (pen : Pen) (indent : Nat) (key : String) : Pen :=
  let pen := pen.startLine indent
  if isSimpleKey key then (pen.text (some indent) true key).suffix [':']
  else (((pen.sign ['?'] true).text (some indent) false key).startLine indent).sign [':'] true

mutual

/-- Writes a value inside a collection at some indentation; `inMapping` says that it belongs to a
key. -/
def value (outer : Option Nat) (inMapping : Bool) : Value → Pen → Pen
  | .null, pen => pen.plain "null".toList
  | .bool b, pen => pen.plain (toString b).toList
  | .int n, pen => pen.plain (toString n.toInt).toList
  | .float x, pen => pen.plain (numberStyle.format x).toList
  | .text s, pen => pen.text outer false s
  | .sequence [], pen => (pen.sign ['['] false).suffix [']']
  | .sequence (item :: rest), pen =>
    let indent := match outer with
      | none => 0
      | some n => if inMapping && !pen.fresh then n else n + 2
    items indent rest (value (some indent) false item ((pen.startLine indent).sign ['-'] true))
  | .mapping [], pen => (pen.sign ['\x7b'] false).suffix ['\x7d']
  | .mapping ((name, item) :: rest), pen =>
    let indent := match outer with
      | none => 0
      | some n => n + 2
    entries indent rest (value (some indent) true item (pen.key indent name))

/-- Writes items at an indentation. -/
def items (indent : Nat) : List Value → Pen → Pen
  | [], pen => pen
  | item :: rest, pen =>
    items indent rest (value (some indent) false item ((pen.startLine indent).sign ['-'] true))

/-- Writes entries at an indentation. -/
def entries (indent : Nat) : List (String × Value) → Pen → Pen
  | [], pen => pen
  | (name, item) :: rest, pen =>
    entries indent rest (value (some indent) true item (pen.key indent name))

end

end Pen

end DocPath.Yaml

namespace DocPath

/-- Writes a document as YAML. -/
def Value.toYamlText (v : Value) : String :=
  String.ofList (((Yaml.Pen.value none false v .start).startLine 0).written.reverse)

end DocPath
