/-!
# Characters of YAML text

Line ends are brought to the line feed before anything else is looked at (`normalize`); the two
Unicode separators stay as they are and end a line too.
-/

namespace DocPath.Yaml

/-- Whether a character may stand in a YAML text at all. -/
def isAllowed (c : Char) : Bool :=
  let n := c.toNat
  n = 0x09 || n = 0x0A || n = 0x0D || decide (0x20 ≤ n ∧ n ≤ 0x7E) || n = 0x85 ||
    decide (0xA0 ≤ n ∧ n ≤ 0xD7FF) || decide (0xE000 ≤ n ∧ n ≤ 0xFFFD) || decide (0x10000 ≤ n)

/-- Whether a character is written as it is; the others are escaped. -/
def isPrintable (c : Char) : Bool :=
  let n := c.toNat
  n = 0x0A || decide (0x20 ≤ n ∧ n ≤ 0x7E) || decide (0xA0 ≤ n ∧ n ≤ 0xD7FF) ||
    (decide (0xE000 ≤ n ∧ n ≤ 0xFFFD) && n != 0xFEFF) || decide (0x10000 ≤ n)

/-- One line feed for each line end. -/
def normalize : List Char → List Char
  | [] => []
  | '\r' :: '\n' :: rest => '\n' :: normalize rest
  | c :: rest => (if c = '\r' ∨ c = '\x85' then '\n' else c) :: normalize rest

/-- A line end, after `normalize`. -/
def isBreak (c : Char) : Bool := c = '\n' || c = '\u2028' || c = '\u2029'

/-- A blank within a line. -/
def isBlank (c : Char) : Bool := c = ' ' || c = '\t'

/-- Whether a text goes on with neither a blank nor a line end. -/
def goesOn : List Char → Bool
  | [] => false
  | c :: _ => !isBlank c && !isBreak c

/-- Whether a text has come to the end of a line. -/
def atLineEnd : List Char → Bool
  | [] => true
  | c :: _ => isBreak c

/-- A character of names: of anchors, tag handles and directives. -/
def isWord (c : Char) : Bool := c.isAlphanum || c = '_' || c = '-'

/-- A character that may stand in a tag as it is or begins an escape. -/
def isTagChar (c : Char) : Bool := isWord c || ";/?:@&=+$.!~*\x27()%".contains c

end DocPath.Yaml
