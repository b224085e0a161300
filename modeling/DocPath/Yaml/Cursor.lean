import DocPath.Yaml.Character

/-!
# Places in a YAML text

A cursor is the rest of a text together with its position. Columns count characters, and what has a
limited width is measured in bytes, so a position keeps both. Between two words of a scalar that is
written over several lines lies a *gap*; a gap with one line end reads as a space, and one with more
as the line ends after the first.
-/

namespace DocPath.Yaml

/-- A line, and how many characters and bytes of it come before some place. -/
structure Position where
  line : Nat
  column : Nat
  bytes : Nat

namespace Position

/-- The start of a text. -/
def start : Position := ⟨0, 0, 0⟩

/-- The start of the line below. -/
def nextLine (place : Position) : Position := ⟨place.line + 1, 0, 0⟩

/-- The position behind a character. -/
def after (place : Position) (c : Char) : Position :=
  if isBreak c then place.nextLine
  else ⟨place.line, place.column + 1, place.bytes + c.utf8Size⟩

end Position

/-- The rest of a text, and where it begins. -/
structure Cursor extends Position where
  rest : List Char

namespace Cursor

/-- The start of a text, with line ends normalized. -/
def start (cs : List Char) : Cursor := ⟨.start, normalize cs⟩

/-- Goes on by one character. -/
def next (cur : Cursor) : Cursor :=
  match cur.rest with
  | [] => cur
  | c :: rest => ⟨cur.after c, rest⟩

/-- Goes on by some characters. -/
def skip (cur : Cursor) (count : Nat) : Cursor :=
  ⟨(cur.rest.take count).foldl Position.after cur.toPosition, cur.rest.drop count⟩

/-- Goes on over characters while they have a property. -/
def skipWhile (cur : Cursor) (p : Char → Bool) : Cursor :=
  ⟨(cur.rest.takeWhile p).foldl Position.after cur.toPosition, cur.rest.dropWhile p⟩

/-- Goes on to the end of the line. -/
def skipLine (cur : Cursor) : Cursor := cur.skipWhile fun c => !isBreak c

/-- The character here. -/
def peek? (cur : Cursor) : Option Char := cur.rest.head?

/-- Whether a sign of three characters stands here at the start of a line, with nothing right after
it. -/
def atSign (cur : Cursor) (sign : Char) : Bool :=
  cur.column = 0 && cur.rest.take 3 = [sign, sign, sign] && !goesOn (cur.rest.drop 3)

/-- Whether a document begins or ends here by a sign of its own. -/
def atDocumentSign (cur : Cursor) : Bool := cur.atSign '-' || cur.atSign '.'

end Cursor

/-- What lies between two words of a scalar: blanks, or line ends. `escaped` says that the first
line end was escaped and so counts for nothing. -/
structure Gap where
  blanks : List Char
  broken : Bool
  first : Option Char
  more : List Char

namespace Gap

/-- No gap. -/
def none : Gap := ⟨[], false, .none, []⟩

/-- An escaped line end. -/
def escaped : Gap := ⟨[], true, .none, []⟩

/-- A gap goes on with one more character. -/
def push (gap : Gap) (c : Char) : Gap :=
  if isBreak c then
    if gap.broken then { gap with more := gap.more ++ [c] }
    else ⟨[], true, some c, []⟩
  else if gap.broken then gap
  else { gap with blanks := gap.blanks ++ [c] }

/-- What a gap reads as. -/
def text (gap : Gap) : List Char :=
  if !gap.broken then gap.blanks
  else match gap.first with
    | some '\n' => if gap.more.isEmpty then [' '] else gap.more
    | some c => c :: gap.more
    | .none => gap.more

end Gap

end DocPath.Yaml
