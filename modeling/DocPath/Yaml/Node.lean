import DocPath.Yaml.Lexer

/-!
# YAML nodes

A document is a tree of nodes. An anchor gives a node a number, which is how many names have been
used for anchors before it; so a name that is used twice keeps its node's number open for the next
new name. An alias holds the number that its name has where the alias stands, and means the last
node with that number.

A malformed document is cut off where the error is: a `broken` node stands there and nothing follows
it, so that what comes before can still be looked at.
-/

namespace DocPath.Yaml

/-- The tag of a node: a text, or octets that make up none. -/
inductive Tag where
  | text (s : String)
  | broken (octets : Octets)
  deriving DecidableEq, Repr

namespace Tag

/-- The tag that octets spell. -/
def ofOctets (octets : Octets) : Tag :=
  match String.fromUTF8? octets.toByteArray with
  | some s => .text s
  | none => .broken octets

/-- Whether a tag begins with a sign. -/
def isSigned : Tag → Bool
  | .text s => s.startsWith "!"
  | .broken octets => (Octets.ofText "!").isPrefixOf octets

/-- Whether a tag is local: a text that begins with a sign. -/
def isLocal : Tag → Bool
  | .text s => s.startsWith "!"
  | .broken _ => false

end Tag

/-- What may stand before the content of a node. -/
structure Properties where
  anchor : Option Nat
  tag : Option Tag
  deriving DecidableEq, Repr

/-- No properties. -/
def Properties.none : Properties := ⟨.none, .none⟩

/-- A node of a document. -/
inductive Node where
  | scalar (properties : Properties) (plain : Bool) (text : String)
  | sequence (properties : Properties) (items : List Node)
  | mapping (properties : Properties) (entries : List (Node × Node))
  | alias (number : Nat)
  | broken
  deriving Repr

namespace Node

/-- An empty node. -/
def empty : Node := .scalar .none true ""

/-- Whether a local tag stands before a node. -/
def hasLocalTag : Node → Bool
  | .scalar properties _ _ | .sequence properties _ | .mapping properties _ =>
    properties.tag.any Tag.isLocal
  | .alias _ | .broken => false

mutual

/-- The nodes with an anchor, by their numbers, in the order of the text. -/
def anchored : Node → List (Nat × Node)
  | .scalar properties plain text => match properties.anchor with
    | some number => [(number, .scalar properties plain text)]
    | none => []
  | .sequence properties items => match properties.anchor with
    | some number => (number, .sequence properties items) :: itemsAnchored items
    | none => itemsAnchored items
  | .mapping properties entries => match properties.anchor with
    | some number => (number, .mapping properties entries) :: entriesAnchored entries
    | none => entriesAnchored entries
  | .alias _ | .broken => []

/-- The nodes with an anchor in a list of nodes. -/
def itemsAnchored : List Node → List (Nat × Node)
  | [] => []
  | item :: rest => anchored item ++ itemsAnchored rest

/-- The nodes with an anchor in a list of entries. -/
def entriesAnchored : List (Node × Node) → List (Nat × Node)
  | [] => []
  | (key, value) :: rest => anchored key ++ anchored value ++ entriesAnchored rest

end

mutual

/-- The size of a node: one for a scalar or an alias, and two for a collection, its start and its
end; the end of one that is cut off does not count. -/
def size : Node → Nat
  | .scalar _ _ _ | .alias _ => 1
  | .sequence _ items => 1 + itemsSize items
  | .mapping _ entries => 1 + entriesSize entries
  | .broken => 0

/-- The size of a list of nodes with the end after it. -/
def itemsSize : List Node → Nat
  | [] => 1
  | .broken :: _ => 0
  | item :: rest => size item + itemsSize rest

/-- The size of a list of entries with the end after it. -/
def entriesSize : List (Node × Node) → Nat
  | [] => 1
  | (.broken, _) :: _ => 0
  | (key, value) :: rest => size key + size value + entriesSize rest

end

end Node

/-- What is left of the tokens, and the names in use. -/
structure Source where
  tokens : List Token
  /-- What the handles of tags stand for. -/
  handles : List (String × Octets)
  /-- The number of each anchor name, the latest first. -/
  names : List (String × Nat)

namespace Source

/-- How many names have been used for anchors. -/
def nameCount (src : Source) : Nat := (src.names.map Prod.fst).eraseDups.length

/-- Gives the next number to a name. -/
def register (src : Source) (name : Option String) : Option Nat × Source :=
  match name with
  | none => (none, src)
  | some name =>
    let number := src.nameCount
    (some number, { src with names := (name, number) :: src.names })

/-- The next token. -/
def peek? (src : Source) : Option Token := src.tokens.head?

/-- Goes on by one token. -/
def next (src : Source) : Source := { src with tokens := src.tokens.tail }

/-- The tag that a handle and a suffix make; a handle that stands for nothing is an error. -/
def tag? (src : Source) (handle : String) (suffix : Octets) : Option Tag :=
  if handle.isEmpty then some (.ofOctets suffix)
  else (src.handles.lookup handle).map fun start => .ofOctets (start ++ suffix)

/-- Reads an anchor and a tag, in either order; each may be missing. -/
def properties (src : Source) : Option String × Option (String × Octets) × Source :=
  match src.tokens with
  | .anchor name :: .tag handle suffix :: rest =>
    (some name, some (handle, suffix), { src with tokens := rest })
  | .tag handle suffix :: .anchor name :: rest =>
    (some name, some (handle, suffix), { src with tokens := rest })
  | .anchor name :: rest => (some name, none, { src with tokens := rest })
  | .tag handle suffix :: rest => (none, some (handle, suffix), { src with tokens := rest })
  | _ => (none, none, src)

end Source

/-- A node, and what is left after it; nothing once the document is cut off. -/
abbrev Parsed (α : Type) := α × Option Source

namespace Node

/-- A document that is cut off here. -/
def cut : Parsed Node := (.broken, none)

/-- A missing node. -/
def missing (src : Source) : Parsed Node := (.empty, some src)

mutual

/-- Reads a node. `block` says that it may be a collection in block style, and `level` that its
items may stand at the indentation of the mapping around it. -/
def parse (block level : Bool) : (fuel : Nat) → Source → Parsed Node
  | 0, _ => cut
  | fuel + 1, src =>
    match src.peek? with
    | some (.alias name) => match src.names.lookup name with
      | some number => (.alias number, some src.next)
      | none => cut
    | _ =>
      let (name, written, rest) := src.properties
      match written.mapM fun (handle, suffix) => rest.tag? handle suffix with
      | none => cut
      | some tag =>
        let (anchor, numbered) := rest.register name
        let own : Properties := ⟨anchor, tag⟩
        match rest.peek? with
        | some (.scalar plain text) =>
          (.scalar own plain text, some numbered.next)
        | some .flowSequence =>
          let (items, after) := flowItems true fuel numbered.next
          (.sequence own items, after)
        | some .flowMapping =>
          let (entries, after) := flowEntries true fuel numbered.next
          (.mapping own entries, after)
        | other =>
          if other = some .item ∧ level then
            let (items, after) := levelItems fuel numbered
            (.sequence own items, after)
          else if other = some .blockSequence ∧ block then
            let (items, after) := blockItems fuel numbered.next
            (.sequence own items, after)
          else if other = some .blockMapping ∧ block then
            let (entries, after) := blockEntries fuel numbered.next
            (.mapping own entries, after)
          else if other.isSome ∧ (name.isSome ∨ tag.isSome) then
            (.scalar own true "", some numbered)
          else cut

/-- Reads the items of a sequence in block style. -/
def blockItems : (fuel : Nat) → Source → Parsed (List Node)
  | 0, _ => ([.broken], none)
  | fuel + 1, src =>
    match src.peek? with
    | some .item =>
      let src := src.next
      let (item, after) := match src.peek? with
        | some .item | some .blockEnd => missing src
        | _ => parse true false fuel src
      let (items, after) := match after with
        | some src => blockItems fuel src
        | none => ([], none)
      (item :: items, after)
    | some .blockEnd => ([], some src.next)
    | _ => ([.broken], none)

/-- Reads the items of a sequence that stands at the indentation of the mapping around it. -/
def levelItems : (fuel : Nat) → Source → Parsed (List Node)
  | 0, _ => ([.broken], none)
  | fuel + 1, src =>
    match src.peek? with
    | some .item =>
      let src := src.next
      let (item, after) := match src.peek? with
        | some .item | some .key | some .value | some .blockEnd => missing src
        | _ => parse true false fuel src
      let (items, after) := match after with
        | some src => levelItems fuel src
        | none => ([], none)
      (item :: items, after)
    | some _ => ([], some src)
    | none => ([.broken], none)

/-- Reads a key or a value of a mapping in block style. -/
def blockPart : (fuel : Nat) → Source → Parsed Node
  | 0, _ => cut
  | fuel + 1, src =>
    match src.peek? with
    | some .key | some .value | some .blockEnd => missing src
    | _ => parse true true fuel src

/-- Reads the entries of a mapping in block style. -/
def blockEntries : (fuel : Nat) → Source → Parsed (List (Node × Node))
  | 0, _ => ([(.broken, .broken)], none)
  | fuel + 1, src =>
    match src.peek? with
    | some .key =>
      let (key, after) := blockPart fuel src.next
      let (value, after) := match after with
        | none => cut
        | some src => match src.peek? with
          | some .value => blockPart fuel src.next
          | some _ => missing src
          | none => cut
      let (entries, after) := match after with
        | some src => blockEntries fuel src
        | none => ([], none)
      ((key, value) :: entries, after)
    | some .blockEnd => ([], some src.next)
    | _ => ([(.broken, .broken)], none)

/-- Reads the entry of a pair that stands in a sequence in flow style. -/
def flowPair : (fuel : Nat) → Source → Parsed (Node × Node)
  | 0, _ => ((.broken, .broken), none)
  | fuel + 1, src =>
    let (key, after) := match src.peek? with
      | some .value | some .comma | some .flowSequenceEnd => missing src.next
      | _ => parse false false fuel src
    let (value, after) := match after with
      | none => cut
      | some src => match src.peek? with
        | some .value => match src.next.peek? with
          | some .comma | some .flowSequenceEnd => missing src.next
          | _ => parse false false fuel src.next
        | some _ => missing src
        | none => cut
    ((key, value), after)

/-- Reads the items of a sequence in flow style; before all but the first there is a comma. -/
def flowItems (first : Bool) : (fuel : Nat) → Source → Parsed (List Node)
  | 0, _ => ([.broken], none)
  | fuel + 1, src =>
    let comma := src.peek? = some .comma
    if src.peek? = some .flowSequenceEnd then ([], some src.next)
    else if !first && !comma then ([.broken], none)
    else
      let src := if first then src else src.next
      match src.peek? with
      | some .flowSequenceEnd => ([], some src.next)
      | some .key =>
        let (entry, after) := flowPair fuel src.next
        let (items, after) := match after with
          | some src => flowItems false fuel src
          | none => ([], none)
        (.mapping .none [entry] :: items, after)
      | _ =>
        let (item, after) := parse false false fuel src
        let (items, after) := match after with
          | some src => flowItems false fuel src
          | none => ([], none)
        (item :: items, after)

/-- Reads the entries of a mapping in flow style; before all but the first there is a comma. -/
def flowEntries (first : Bool) : (fuel : Nat) → Source → Parsed (List (Node × Node))
  | 0, _ => ([(.broken, .broken)], none)
  | fuel + 1, src =>
    let comma := src.peek? = some .comma
    if src.peek? = some .flowMappingEnd then ([], some src.next)
    else if !first && !comma then ([(.broken, .broken)], none)
    else
      let src := if first then src else src.next
      match src.peek? with
      | some .flowMappingEnd => ([], some src.next)
      | some .key =>
        let (key, after) := match src.next.peek? with
          | some .value | some .comma | some .flowMappingEnd => missing src.next
          | _ => parse false false fuel src.next
        let (value, after) := match after with
          | none => cut
          | some src => match src.peek? with
            | some .value => match src.next.peek? with
              | some .comma | some .flowMappingEnd => missing src.next
              | _ => parse false false fuel src.next
            | some _ => missing src
            | none => cut
        let (entries, after) := match after with
          | some src => flowEntries false fuel src
          | none => ([], none)
        ((key, value) :: entries, after)
      | _ =>
        let (key, after) := parse false false fuel src
        let (value, after) : Parsed Node := match after with
          | some src => if src.peek?.isSome then missing src else cut
          | none => cut
        let (entries, after) := match after with
          | some src => flowEntries false fuel src
          | none => ([], none)
        ((key, value) :: entries, after)

end

end Node

/-- A document: its root, and whether the text was well formed up to its end and held no other
document. A text without any document has no root. -/
structure Document where
  root : Option Node
  sound : Bool

namespace Document

/-- Handles that every document knows. -/
def defaultHandles : List (String × Octets) :=
  [("!", .ofText "!"), ("!!", .ofText "tag:yaml.org,2002:")]

/-- Reads directives. No handle may be given twice, nor a version, which is 1.1 or 1.2. The answer
is the handles that were given. -/
def directives (versioned : Bool) : (handles : List (String × Octets)) → List Token →
    Option (List (String × Octets) × List Token)
  | handles, .version major minor :: rest =>
    if !versioned && major = 1 && (minor = 1 || minor = 2) then directives true handles rest
    else none
  | handles, .tagHandle handle start :: rest =>
    if (handles.lookup handle).isSome then none
    else directives versioned ((handle, start) :: handles) rest
  | handles, rest => some (handles, rest)

/-- Whether nothing but signs of a document's end is left before the end of the text. -/
def endsText : List Token → Bool
  | .streamEnd :: _ => true
  | .documentEnd :: rest => endsText rest
  | _ => false

/-- The content of a document after its directives and signs. -/
def ofContent (src : Source) (explicit : Bool) : Document :=
  let (root, after) := match explicit, src.peek? with
    | true, some (.version _ _) | true, some (.tagHandle _ _) | true, some .documentStart
    | true, some .documentEnd | true, some .streamEnd => Node.missing src
    | _, _ => Node.parse true false (2 * src.tokens.length + 10) src
  ⟨some root, match after with
    | some src => endsText src.tokens
    | none => false⟩

/-- Reads the one document of a text. -/
def ofTokens (row : List Token) : Document :=
  match row with
  | [] => ⟨some .broken, false⟩
  | .streamEnd :: _ => ⟨none, true⟩
  | .version _ _ :: _ | .tagHandle _ _ :: _ | .documentStart :: _ =>
    match directives false [] row with
    | some (handles, .documentStart :: rest) =>
      ofContent ⟨rest, handles ++ defaultHandles, []⟩ true
    | _ => ⟨some .broken, false⟩
  | _ => ofContent ⟨row, defaultHandles, []⟩ false

/-- Reads the one document of a text. -/
def parse (cs : List Char) : Document :=
  if cs.all isAllowed then ofTokens (tokens cs) else ⟨some .broken, false⟩

end Document

end DocPath.Yaml
