import DocPath.Yaml.Character
import DocPath.Yaml.Resolve

/-!
# How a text is written as a scalar

A text of several lines asks for a block, and one that would mean something else without quotes for
single quotes. Any other is left plain. Where what is asked for could not be read back, the next one
in the row *plain, single quotes, double quotes* is taken, and double quotes in place of a block.
-/

namespace DocPath.Yaml

/-- The ways to write a scalar. -/
inductive ScalarStyle where
  | plain
  | single
  | double
  | literal
  deriving DecidableEq, Repr

namespace ScalarStyle

/-- A line end in a text that is to be written. -/
def endsLine (c : Char) : Bool := isBreak c || c = '\r' || c = '\x85'

/-- Whether a text, or a word in it, stops here. -/
def stops : List Char → Bool
  | [] => true
  | c :: _ => isBlank c || endsLine c

/-- Whether a text has two neighbours with these properties. -/
def hasPair (p q : Char → Bool) : List Char → Bool
  | c :: d :: rest => (p c && q d) || hasPair p q (d :: rest)
  | _ => false

def isSpace (c : Char) : Bool := c = ' '

/-- Whether a text holds a character that only double quotes can carry. -/
def needsEscape (cs : List Char) : Bool := cs.any fun c => !isPrintable c

/-- Whether a later part of a plain scalar would end it: a colon before a stop, or a comment sign
after one. `stopped` says that a stop stands right before. -/
def endsEarly : (stopped : Bool) → List Char → Bool
  | _, [] => false
  | stopped, c :: rest =>
    (c = ':' && stops rest) || (c = '#' && stopped) || endsEarly (stops [c]) rest

/-- Whether the beginning of a text would mean something else in a plain scalar. -/
def beginsSign : List Char → Bool
  | [] => false
  | c :: rest =>
    "#,[]\x7b\x7d&*!|>\x27\x22%@\x60".contains c ||
      ((c = '?' || c = ':' || c = '-') && stops rest) ||
      (c :: rest).take 3 = ['-', '-', '-'] || (c :: rest).take 3 = ['.', '.', '.'] ||
      endsEarly (stops [c]) rest

/-- Whether a text has several lines. -/
def hasLines (cs : List Char) : Bool := cs.any endsLine

/-- Whether a text may be written plainly. -/
def allowsPlain (cs : List Char) : Bool :=
  !cs.isEmpty && !hasLines cs && !needsEscape cs && !beginsSign cs &&
    !cs.head?.any isSpace && !cs.getLast?.any isSpace

/-- Whether a text may be written in single quotes. -/
def allowsSingle (cs : List Char) : Bool :=
  !needsEscape cs && !hasPair isSpace endsLine cs && !hasPair endsLine isSpace cs

/-- Whether a text may be written as a block. -/
def allowsLiteral (cs : List Char) : Bool :=
  !cs.isEmpty && !needsEscape cs && !hasPair isSpace endsLine cs && !cs.getLast?.any isSpace

/-- What a text asks for. -/
def wanted (s : String) : ScalarStyle :=
  if s.toList.contains '\n' then .literal
  else if Meaning.ofPlain s != .text || Meaning.isPadded s.toList then .single
  else .plain

/-- How a text is written; a key on one line cannot be a block. -/
def choose (simpleKey : Bool) (s : String) : ScalarStyle :=
  let cs := s.toList
  match if simpleKey && hasLines cs then .double else wanted s with
  | .plain => if allowsPlain cs then .plain else if allowsSingle cs then .single else .double
  | .single => if allowsSingle cs then .single else .double
  | .literal => if allowsLiteral cs && !simpleKey then .literal else .double
  | .double => .double

end ScalarStyle

end DocPath.Yaml
