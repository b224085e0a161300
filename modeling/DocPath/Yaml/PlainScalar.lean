import DocPath.Yaml.Cursor

/-!
# Scalars without quotes

A plain scalar is a row of words with gaps between them. It ends at a colon with nothing right after
it, at a comment, at a line that is not indented far enough, at the signs of documents and, inside
brackets, at a comma or a bracket.
-/

namespace DocPath.Yaml

/-- The signs of flow collections. -/
def isFlowSign (c : Char) : Bool := c = ',' || c = '[' || c = ']' || c = '\x7b' || c = '\x7d'

/-- The word that a text begins with. Inside brackets a colon right before a sign of theirs, or
before a question mark, is an error. -/
def takeWord (flow : Bool) : List Char → Option (List Char)
  | [] => some []
  | c :: rest =>
    if isBlank c || isBreak c then some []
    else if flow && c = ':' && rest.head?.any (fun d => isFlowSign d || d = '?') then none
    else if (c = ':' && !goesOn rest) || (flow && isFlowSign c) then some []
    else (takeWord flow rest).map (c :: ·)

/-- Reads on over a gap. After a line end there may be no tab before the column `indent`. -/
def takeGap (indent : Nat) : Gap → Position → List Char → Option (Gap × Cursor)
  | gap, place, [] => some (gap, ⟨place, []⟩)
  | gap, place, c :: rest =>
    if !isBreak c && !isBlank c then some (gap, ⟨place, c :: rest⟩)
    else if gap.broken && decide (place.column < indent) && c = '\t' then none
    else takeGap indent (gap.push c) (place.after c) rest

/-- Reads words and gaps, after the gap given; `fuel` bounds how many words there can be. The answer
is the text, the gap after it, and where that ends. -/
def plainWords (flow : Bool) (indent : Nat) : (fuel : Nat) → Gap → Cursor →
    Option (List Char × Gap × Cursor)
  | 0, gap, cur => some ([], gap, cur)
  | fuel + 1, gap, cur =>
    if cur.atDocumentSign || cur.peek? = some '#' then some ([], gap, cur)
    else match takeWord flow cur.rest with
      | none => none
      | some [] => some ([], gap, cur)
      | some (c :: word) =>
        let cur := cur.skip (word.length + 1)
        match takeGap indent .none cur.toPosition cur.rest with
        | none => none
        | some (next, cur) =>
          if !flow && decide (cur.column < indent) then some (gap.text ++ c :: word, next, cur)
          else (plainWords flow indent fuel next cur).map fun (more, last, cur) =>
            (gap.text ++ c :: word ++ more, last, cur)

/-- Reads a plain scalar. The answer also says whether a line ended after it. -/
def takePlain (flow : Bool) (indent : Nat) (cur : Cursor) : Option (String × Bool × Cursor) :=
  (plainWords flow indent (cur.rest.length + 1) .none cur).map fun (text, gap, cur) =>
    (String.ofList text, gap.broken, cur)

end DocPath.Yaml
