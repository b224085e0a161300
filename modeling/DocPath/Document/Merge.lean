import DocPath.Document.Value

/-!
# Deep merge

Mappings are merged key by key, at every depth. Anything else, sequences included, is replaced by
the incoming side as a whole. Keys that only the existing side has are left alone.
-/

namespace DocPath

mutual

/-- Lays an incoming value over an existing one. -/
def Value.overlay : (incoming existing : Value) → Value
  | .mapping incoming, existing => match existing with
    | .mapping fields => .mapping (Fields.overlay incoming fields)
    | _ => .mapping incoming
  | incoming, _ => incoming

/-- Lays incoming entries over existing ones, in order. -/
def Fields.overlay : (incoming : List (String × Value)) → Fields Value → Fields Value
  | [], fields => fields
  | (key, value) :: rest, fields =>
    Fields.overlay rest
      (Fields.insert key (Value.overlay value ((Fields.get? key fields).getD .null)) fields)

end

/-- Merges two mappings; the second wins. -/
def Fields.merge (existing incoming : Fields Value) : Fields Value :=
  Fields.overlay incoming existing

/-- Merges two values: mappings deeply, anything else by replacement. -/
def Value.merge (existing incoming : Value) : Value := Value.overlay incoming existing

end DocPath
