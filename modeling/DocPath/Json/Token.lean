import DocPath.Json.Basic

/-!
# JSON tokens

A JSON text is a row of tokens with blanks between them. Everything that is written as JSON is first
brought into tokens and then spelled (`spell`), in one of two layouts; everything that is read is
first cut into tokens again. So a round trip only has to be looked at once, here.
-/

namespace DocPath.Json

/-- A token: an atom or one of the six signs. -/
inductive Token where
  | openArray
  | closeArray
  | openObject
  | closeObject
  | comma
  | colon
  | atom (a : Atom)
  deriving DecidableEq, Repr

namespace Token

/-- Whether a container begins. -/
def opens : Token → Bool
  | .openArray | .openObject => true
  | _ => false

/-- Whether a container ends. -/
def closes : Token → Bool
  | .closeArray | .closeObject => true
  | _ => false

end Token

/-- JSON writes decimals from `1e-5` up to `1e16` without an exponent, keeps `.0`, and marks
positive exponents. Numbers that are not finite never reach it. -/
def numberStyle : NumberStyle where
  tie := .toEven
  positional := fun point => decide (-5 < point ∧ point ≤ 16)
  wholeSuffix := ".0"
  plus := "+"
  nan := "null"
  infinity := "null"

/-- A hexadecimal digit, in lower case. -/
def hexDigit (n : Nat) : Char := Nat.digitChar n

/-- A character inside quotes. -/
def escape (c : Char) : List Char :=
  if c = '\x22' then ['\\', '\x22']
  else if c = '\\' then ['\\', '\\']
  else if c = '\n' then ['\\', 'n']
  else if c = '\r' then ['\\', 'r']
  else if c = '\t' then ['\\', 't']
  else if c = '\x08' then ['\\', 'b']
  else if c = '\x0c' then ['\\', 'f']
  else if c < ' ' then ['\\', 'u', '0', '0', hexDigit (c.toNat / 16), hexDigit (c.toNat % 16)]
  else [c]

/-- A text in quotes. -/
def quote (s : String) : List Char := '\x22' :: s.toList.flatMap escape ++ ['\x22']

/-- How an atom is written. -/
def Atom.spell : Atom → List Char
  | .null => "null".toList
  | .bool b => (toString b).toList
  | .natural n => Nat.toDigits 10 n.toNat
  | .negative n => '-' :: Nat.toDigits 10 n.toInt.natAbs
  | .float x => (numberStyle.format x).toList
  | .text s => quote s

/-- How a token is written. -/
def Token.spell : Token → List Char
  | .openArray => ['[']
  | .closeArray => [']']
  | .openObject => ['\x7b']
  | .closeObject => ['\x7d']
  | .comma => [',']
  | .colon => [':']
  | .atom a => a.spell

/-- The blanks of a layout: before an item at some depth, and after a colon. -/
structure Layout where
  line : Nat → List Char
  gap : List Char

namespace Layout

/-- No blanks at all. -/
def compact : Layout := ⟨fun _ => [], []⟩

/-- Each item on a line of its own, two columns further in than its container. -/
def pretty : Layout := ⟨fun depth => '\n' :: List.replicate (2 * depth) ' ', [' ']⟩

end Layout

/-- Spells tokens at some depth; `opened` says that the token before them opened a container, which
stays on one line if it is empty. -/
def spell (layout : Layout) : (depth : Nat) → (opened : Bool) → List Token → List Char
  | _, _, [] => []
  | depth, opened, token :: rest =>
    if token.closes then
      (if opened then [] else layout.line (depth - 1)) ++ token.spell ++
        spell layout (depth - 1) false rest
    else
      (if opened then layout.line depth else []) ++ token.spell ++
        (match token with
          | .comma => layout.line depth
          | .colon => layout.gap
          | _ => []) ++
        spell layout (if token.opens then depth + 1 else depth) token.opens rest

/-- How deep containers are nested at most in tokens that stand at some depth. -/
def nesting : (depth : Nat) → List Token → Nat
  | depth, [] => depth
  | depth, token :: rest =>
    max depth (nesting (if token.opens then depth + 1
      else if token.closes then depth - 1 else depth) rest)

/-- Parts with commas between them. -/
def separate : List (List Token) → List Token
  | [] => []
  | [part] => part
  | part :: rest => part ++ .comma :: separate rest

mutual

/-- The tokens of a node. -/
def tokens : Json → List Token
  | .atom a => [.atom a]
  | .array items => .openArray :: separate (itemTokens items) ++ [.closeArray]
  | .object fields => .openObject :: separate (fieldTokens fields) ++ [.closeObject]

/-- The tokens of each item. -/
def itemTokens : List Json → List (List Token)
  | [] => []
  | item :: rest => tokens item :: itemTokens rest

/-- The tokens of each entry. -/
def fieldTokens : List (String × Json) → List (List Token)
  | [] => []
  | (key, item) :: rest => (.atom (.text key) :: .colon :: tokens item) :: fieldTokens rest

end

/-- The text of tokens. -/
def write (layout : Layout) (row : List Token) : String := String.ofList (spell layout 0 false row)

/-- A node on one line. -/
def compact (node : Json) : String := write .compact node.tokens

/-- A node over several lines. -/
def pretty (node : Json) : String := write .pretty node.tokens

end DocPath.Json
