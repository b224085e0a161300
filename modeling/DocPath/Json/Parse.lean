import DocPath.Json.Lexer

/-!
# From JSON tokens to nodes

The containers that are still open lie on a stack, each with what is complete of it, and every token
moves the machine on (`State.step`). A row of tokens is a node when it moves the machine from the
start to a complete node with nothing left open. Of two entries of an object with one key the later
counts.
-/

namespace DocPath.Json

/-- An open container: an array's items so far, last first, or an object's entries so far and the
key whose node is being read. -/
inductive Frame where
  | array (items : List Json)
  | entry (fields : Fields Json) (key : String)

/-- What may come next. -/
inductive State where
  /-- A node. -/
  | node (stack : List Frame)
  /-- A node, or the end of an array that is still empty. -/
  | first (stack : List Frame)
  /-- A key, or the end of an object that is still empty. -/
  | firstKey (stack : List Frame)
  | key (fields : Fields Json) (stack : List Frame)
  | colon (fields : Fields Json) (key : String) (stack : List Frame)
  /-- A comma, the end of a container, or the end of the text. -/
  | complete (node : Json) (stack : List Frame)

namespace State

/-- A token where a node has to begin. -/
def begin? (stack : List Frame) : Token → Option State
  | .atom a => some (.complete (.atom a) stack)
  | .openArray => some (.first stack)
  | .openObject => some (.firstKey stack)
  | _ => none

/-- A token where a key has to stand. -/
def key? (fields : Fields Json) (stack : List Frame) : Token → Option State
  | .atom (.text name) => some (.colon fields name stack)
  | _ => none

/-- A token after a complete node, inside the innermost open container. -/
def continue? (latest : Json) : List Frame → Token → Option State
  | .array items :: stack, .comma => some (.node (.array (latest :: items) :: stack))
  | .array items :: stack, .closeArray => some (.complete (.array (latest :: items).reverse) stack)
  | .entry fields name :: stack, .comma => some (.key (Fields.insert name latest fields) stack)
  | .entry fields name :: stack, .closeObject =>
    some (.complete (.object (Fields.insert name latest fields)) stack)
  | _, _ => none

/-- Moves the machine on by one token. -/
def step : State → Token → Option State
  | .node stack, token => begin? stack token
  | .first stack, token =>
    if token = .closeArray then some (.complete (.array []) stack)
    else begin? (.array [] :: stack) token
  | .firstKey stack, token =>
    if token = .closeObject then some (.complete (.object []) stack) else key? [] stack token
  | .key fields stack, token => key? fields stack token
  | .colon fields name stack, token =>
    if token = .colon then some (.node (.entry fields name :: stack)) else none
  | .complete latest stack, token => continue? latest stack token

/-- Moves the machine on by tokens. -/
def run : State → List Token → Option State
  | state, [] => some state
  | state, token :: rest => match step state token with
    | some next => run next rest
    | none => none

/-- The node of a machine that has come to its end. -/
def result? : State → Option Json
  | .complete latest [] => some latest
  | _ => none

end State

/-- The node that a row of tokens denotes. -/
def ofTokens? (row : List Token) : Option Json := (State.run (.node []) row).bind State.result?

/-- Texts nested deeper are refused. -/
def nestingLimit : Nat := 127

/-- Reads a JSON text. -/
def parse? (text : String) : Option Json := do
  let row ← lex text.toList
  if nesting 0 row ≤ nestingLimit then ofTokens? row else none

end DocPath.Json
