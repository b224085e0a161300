/-!
# YAML tokens

Indentation is made explicit: a block collection begins with a token of its own and ends with
`blockEnd`. `key` and `value` stand before the two parts of an entry, also where the text has no
sign for them. The parts of a tag are octets, because escapes may spell some that are no text.
-/

namespace DocPath.Yaml

/-- A row of octets. -/
abbrev Octets := List UInt8

/-- A token of a YAML text. -/
inductive Token where
  | streamEnd
  | version (major minor : Nat)
  /-- What a tag handle stands for. -/
  | tagHandle (handle : String) (start : Octets)
  | documentStart
  | documentEnd
  | blockSequence
  | blockMapping
  | blockEnd
  | flowSequence
  | flowSequenceEnd
  | flowMapping
  | flowMappingEnd
  /-- The dash before an item. -/
  | item
  /-- The comma between parts of a flow collection. -/
  | comma
  | key
  | value
  | anchor (name : String)
  | alias (name : String)
  | tag (handle : String) (suffix : Octets)
  | scalar (plain : Bool) (text : String)
  deriving DecidableEq, Repr

end DocPath.Yaml
