import DocPath.Number.Numeral
import DocPath.Yaml.Cursor
import DocPath.Yaml.Token

/-!
# Tags, anchors and directives

A tag is written `!<uri>`, `!handle!suffix`, `!suffix` or `!` alone. It is read as a handle and a
suffix; the handle of a full tag is empty, and so is that of `!` alone, whose suffix is `!`. What is
written for a suffix may not be empty, and neither may the start that a handle stands for; but each
means only what comes before its first zero octet.
-/

namespace DocPath.Yaml

/-- The name that an anchor, an alias or a directive goes by. -/
def takeName (cur : Cursor) : String × Cursor :=
  (String.ofList (cur.rest.takeWhile isWord), cur.skipWhile isWord)

/-- Reads the name of an anchor or alias after its sign. -/
def takeAnchor (cur : Cursor) : Option (String × Cursor) :=
  let (name, cur) := takeName (cur.skip 1)
  let ends := match cur.rest with
    | [] => true
    | c :: _ => isBlank c || isBreak c || "?:,]\x7d%@\x60".contains c
  if name.isEmpty || !ends then none else some (name, cur)

namespace Octets

/-- The octets of a text. -/
def ofText (s : String) : Octets := s.toList.flatMap String.utf8EncodeChar

/-- What comes before the first zero. -/
def beforeZero (octets : Octets) : Octets := octets.takeWhile fun octet => octet != 0

end Octets

/-- Reads escaped octets, as many as `count`, each as a percent sign and two digits. -/
def takeOctets : (count : Nat) → List Char → Option (Octets × List Char)
  | 0, cs => some ([], cs)
  | count + 1, '%' :: a :: b :: rest =>
    match Numeral.natOfDigits? 16 [a, b] with
    | none => none
    | some octet => (takeOctets count rest).map fun (more, rest) => (.ofNat octet :: more, rest)
  | _ + 1, _ => none

/-- How many octets an escaped character has whose first one is this. -/
def octetCount (first : UInt8) : Nat :=
  if first < 0x80 then 1
  else if 0xC0 ≤ first ∧ first < 0xE0 then 2
  else if 0xE0 ≤ first ∧ first < 0xF0 then 3
  else if 0xF0 ≤ first ∧ first < 0xF8 then 4
  else 0

/-- Reads one escaped character. Its first octet tells how many follow it and the others go on with
it; whether they make up a character is not asked. -/
def takeEscape (cs : List Char) : Option (Octets × List Char) := do
  let (first, rest) ← takeOctets 1 cs
  match octetCount (first.headD 0) with
  | 0 => none
  | count + 1 =>
    let (more, rest) ← takeOctets count rest
    if more.all fun octet => decide (0x80 ≤ octet ∧ octet < 0xC0) then pure (first ++ more, rest)
    else none

/-- Reads the octets of a tag; `fuel` bounds how many characters there can be. A full tag may hold
more signs. -/
def tagOctets (full : Bool) : (fuel : Nat) → List Char → Option (Octets × List Char)
  | 0, cs => some ([], cs)
  | _ + 1, [] => some ([], [])
  | fuel + 1, c :: rest =>
    if c = '%' then
      match takeEscape (c :: rest) with
      | none => none
      | some (octets, rest) =>
        (tagOctets full fuel rest).map fun (more, rest) => (octets ++ more, rest)
    else if isTagChar c || (full && (c = ',' || c = '[' || c = ']')) then
      (tagOctets full fuel rest).map fun (more, rest) =>
        (String.utf8EncodeChar c ++ more, rest)
    else some ([], c :: rest)

/-- Reads the octets of a tag. -/
def takeTagOctets (full : Bool) (cur : Cursor) : Option (Octets × Cursor) :=
  (tagOctets full (cur.rest.length + 1) cur.rest).map fun (octets, rest) =>
    (octets, cur.skip (cur.rest.length - rest.length))

/-- Reads a handle: a sign, a name, and perhaps a sign again. -/
def takeHandle (cur : Cursor) : Option (String × Cursor) :=
  if cur.peek? = some '!' then
    let (name, cur) := takeName (cur.skip 1)
    if cur.peek? = some '!' then some ("!" ++ name ++ "!", cur.skip 1) else some ("!" ++ name, cur)
  else none

/-- Whether a handle is closed by a second sign. -/
def isClosed (handle : String) : Bool := handle.length > 1 && handle.endsWith "!"

/-- Reads a tag from its sign on. -/
def takeTag (flow : Bool) (cur : Cursor) : Option (String × Octets × Cursor) := do
  let (handle, suffix, cur) ←
    if (cur.skip 1).peek? = some '<' then do
      let (uri, cur) ← takeTagOctets true (cur.skip 2)
      if uri.isEmpty || cur.peek? != some '>' then none
      else pure ("", uri.beforeZero, cur.skip 1)
    else do
      let (handle, cur) ← takeHandle cur
      let (more, cur) ← takeTagOctets false cur
      if isClosed handle then
        if more.isEmpty then none else pure (handle, more.beforeZero, cur)
      else
        let name := String.ofList (handle.toList.drop 1)
        let suffix := (Octets.ofText name ++ more).beforeZero
        pure (if suffix.isEmpty then ("", Octets.ofText "!", cur) else ("!", suffix, cur))
  if goesOn cur.rest && !(flow && cur.peek? = some ',') then none else pure (handle, suffix, cur)

/-- Reads a number of at most nine digits. -/
def takeNumber (cur : Cursor) : Option (Nat × Cursor) :=
  let digits := cur.rest.takeWhile Char.isDigit
  if digits.length ≤ 9 then
    (Numeral.natOfDigits? 10 digits).map (·, cur.skip digits.length)
  else none

/-- What a directive says. -/
inductive Directive where
  | version (major minor : Nat)
  | handle (handle : String) (start : Octets)

/-- Reads what the directive of this name says. -/
def takeDirectiveBody (name : String) (cur : Cursor) : Option (Directive × Cursor) :=
  let cur := cur.skipWhile isBlank
  if name = "YAML" then do
    let (major, cur) ← takeNumber cur
    if cur.peek? = some '.' then do
      let (minor, cur) ← takeNumber (cur.skip 1)
      pure (.version major minor, cur)
    else none
  else if name = "TAG" then do
    let (handle, cur) ← takeHandle cur
    if handle != "!" && !isClosed handle then none
    else if cur.rest.head?.any isBlank then do
      let (start, cur) ← takeTagOctets true (cur.skipWhile isBlank)
      if start.isEmpty || goesOn cur.rest then none
      else pure (.handle handle start.beforeZero, cur)
    else none
  else none

/-- Reads a directive from its sign on, to the end of its line. -/
def takeDirective (cur : Cursor) : Option (Directive × Cursor) := do
  let (name, cur) := takeName (cur.skip 1)
  if name.isEmpty || goesOn cur.rest then none
  else
    let (directive, cur) ← takeDirectiveBody name cur
    let cur := cur.skipWhile isBlank
    let cur := if cur.peek? = some '#' then cur.skipLine else cur
    if atLineEnd cur.rest then pure (directive, cur.next) else none

end DocPath.Yaml
