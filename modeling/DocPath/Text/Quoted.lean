import DocPath.Text.Visible

/-!
# Quoted text in messages

Quotes, backslashes and characters that leave no mark are spelled out, so that a message shows
exactly which text it is about.
-/

namespace DocPath.Text

/-- How a quoted text shows a character. -/
def spelling (c : Char) : List Char :=
  if c = '\x22' then ['\\', '\x22']
  else if c = '\\' then ['\\', '\\']
  else if c = '\n' then ['\\', 'n']
  else if c = '\r' then ['\\', 'r']
  else if c = '\t' then ['\\', 't']
  else if c = '\x00' then ['\\', '0']
  else if isVisible c then [c]
  else '\\' :: 'u' :: '\x7b' :: Nat.toDigits 16 c.toNat ++ ['\x7d']

/-- A text in quotes. -/
def quoted (s : String) : String :=
  String.ofList ('\x22' :: s.toList.flatMap spelling ++ ['\x22'])

/-- A record as a message shows it: its name and its fields, already as text. -/
def record (name : String) (fields : List (String × String)) : String :=
  name ++ " \x7b " ++ ", ".intercalate (fields.map fun (key, value) => key ++ ": " ++ value) ++
    " \x7d"

end DocPath.Text
