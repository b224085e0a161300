import DocPath.Number.Numeral
import DocPath.Yaml.Cursor

/-!
# Scalars in indented blocks

A block scalar is a run of lines that are indented alike. Its header says whether line ends are kept
or *folded*, what becomes of those at the end, and perhaps how far the lines are indented; otherwise
the longest indentation up to the first line with text decides.
-/

namespace DocPath.Yaml

/-- What becomes of the line ends after the last line with text. -/
inductive Chomping where
  | strip
  | clip
  | keep
  deriving DecidableEq

/-- The header after its first sign: the chomping and the extra indentation, in either order. -/
def takeHeader (cur : Cursor) : Option (Chomping × Option Nat × Cursor) :=
  let chomping (cur : Cursor) : Chomping × Cursor := match cur.peek? with
    | some '+' => (.keep, cur.skip 1)
    | some '-' => (.strip, cur.skip 1)
    | _ => (.clip, cur)
  let digit (cur : Cursor) : Option Nat := match cur.peek? with
    | some c => if c.isDigit then some (Numeral.digitValue c) else none
    | none => none
  let (first, cur) := chomping cur
  match digit cur with
  | none => some (first, none, cur)
  | some 0 => none
  | some n =>
    if first = .clip then
      let (second, cur) := chomping (cur.skip 1)
      some (second, some n, cur)
    else some (first, some n, cur.skip 1)

/-- Goes on over the blanks and the comment that may end a line, and over its end. -/
def finishLine (cur : Cursor) : Option Cursor :=
  let cur := cur.skipWhile isBlank
  let cur := if cur.peek? = some '#' then cur.skipLine else cur
  if atLineEnd cur.rest then some cur.next else none

/-- Reads indentation and empty lines. No more than `indent` columns are taken, or any number while
that is zero, and no tab may stand there. The answer is the longest indentation, the line ends, last
first, and where text begins. -/
def takeEmptyLines (indent : Nat) : (longest : Nat) → (ends : List Char) → Position → List Char →
    Option (Nat × List Char × Cursor)
  | longest, ends, place, [] => some (max longest place.column, ends, ⟨place, []⟩)
  | longest, ends, place, c :: rest =>
    if isBreak c then
      takeEmptyLines indent (max longest place.column) (c :: ends) (place.after c) rest
    else if isBlank c ∧ (indent = 0 ∨ place.column < indent) then
      if c = '\t' then none else takeEmptyLines indent longest ends (place.after c) rest
    else some (max longest place.column, ends, ⟨place, c :: rest⟩)

/-- What stands between two lines with text: a single line feed between lines that both begin with
text is folded into a space, or into the empty lines after it. -/
def joint (literal : Bool) (lineEnd empties : List Char) (blankBefore blankAfter : Bool) :
    List Char :=
  if !literal && lineEnd = ['\n'] && !blankBefore && !blankAfter then
    if empties.isEmpty then [' '] else empties
  else lineEnd ++ empties

/-- Reads lines, after a line end and empty lines; `fuel` bounds how many there can be. The answer
is the text, the line end and empty lines after it, and where those end. -/
def blockLines (literal : Bool) (indent : Nat) : (fuel : Nat) → (lineEnd empties : List Char) →
    (blankBefore : Bool) → Cursor → Option (List Char × List Char × List Char × Cursor)
  | 0, lineEnd, empties, _, cur => some ([], lineEnd, empties, cur)
  | fuel + 1, lineEnd, empties, blankBefore, cur =>
    if cur.column = indent ∧ ¬cur.rest.isEmpty then
      let blankAfter := cur.rest.head?.any isBlank
      let line := cur.rest.takeWhile fun c => !isBreak c
      let cur := cur.skipLine
      let next := cur.next
      match takeEmptyLines indent 0 [] next.toPosition next.rest with
      | none => none
      | some (_, ends, after) =>
        (blockLines literal indent fuel (cur.rest.take 1) ends.reverse blankAfter after).map
          fun (more, lineEnd', empties', cur) =>
            (joint literal lineEnd empties blankBefore blankAfter ++ line ++ more,
              lineEnd', empties', cur)
    else some ([], lineEnd, empties, cur)

/-- Reads a block scalar inside a collection with this indentation, from its sign on. -/
def takeBlock (literal : Bool) (outer : Int) (cur : Cursor) : Option (String × Cursor) := do
  let (chomping, extra, cur) ← takeHeader (cur.skip 1)
  let cur ← finishLine cur
  let given := match extra with
    | some n => (if 0 ≤ outer then outer + n else n).toNat
    | none => 0
  let (longest, ends, cur) ← takeEmptyLines given 0 [] cur.toPosition cur.rest
  let indent := if given = 0 then max (max longest (outer + 1).toNat) 1 else given
  let (text, lineEnd, empties, cur) ←
    blockLines literal indent (cur.rest.length + 1) [] ends.reverse false cur
  let tail := match chomping with
    | .strip => []
    | .clip => lineEnd
    | .keep => lineEnd ++ empties
  pure (String.ofList (text ++ tail), cur)

end DocPath.Yaml
