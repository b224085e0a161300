import DocPath.Document.Value
import DocPath.Number.Shortest

/-!
# Plain text of a value

For messages and logs: scalars bare, containers in brackets on one line. Text is not quoted, so this
form is not meant to be read back.
-/

namespace DocPath

namespace Value

mutual

/-- A value on one line. -/
def display : Value → String
  | .null => "null"
  | .bool b => toString b
  | .int n => toString n.toInt
  | .float x => NumberStyle.plain.format x
  | .text s => s
  | .sequence items => "[" ++ ", ".intercalate (displayItems items) ++ "]"
  | .mapping fields => "\x7b" ++ ", ".intercalate (displayFields fields) ++ "\x7d"

/-- Each item on its own. -/
def displayItems : List Value → List String
  | [] => []
  | item :: rest => display item :: displayItems rest

/-- Each entry on its own. -/
def displayFields : List (String × Value) → List String
  | [] => []
  | (key, item) :: rest => (key ++ ": " ++ display item) :: displayFields rest

end

end Value

end DocPath
