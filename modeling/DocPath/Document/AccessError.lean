import DocPath.Document.Value
import DocPath.Path.Parse

/-!
# Errors of reading and writing by path

Each error carries the text of the path that it is about: all of it when the path itself is
malformed, and otherwise the steps up to the node where the walk stopped.
-/

namespace DocPath

/-- Why a document could not be read or written at a path. -/
inductive AccessError where
  | invalidPath (path : String) (fault : PathFault)
  | typeMismatch (path : String) (expected : Container) (actual : Kind)
  | indexTooLarge (path : String) (index : UInt64)
  | notResolvable (path : String)
  | notFound (path : String)
  deriving DecidableEq, Repr

namespace AccessError

/-- The path that the error is about. -/
def path : AccessError → String
  | .invalidPath path _ | .typeMismatch path _ _ | .indexTooLarge path _ | .notResolvable path
  | .notFound path => path

def message : AccessError → String
  | .invalidPath path fault => fault.message path
  | .typeMismatch path expected actual =>
    s!"cannot index '{path}': expected {expected.name} but got {actual.name}"
  | .indexTooLarge path index => s!"cannot extend '{path}' to index {index}: sequence too large"
  | .notResolvable path => s!"path not resolvable: '{path}' does not exist"
  | .notFound path => s!"path {path} not found"

end AccessError

/-- Reads a path; the error names the whole text. -/
def Path.read (text : String) : Except AccessError Path :=
  (Path.parse text).mapError (.invalidPath text)

theorem Path.read_eq_ok {text : String} {p : Path} :
    Path.read text = .ok p ↔ Path.parse text = .ok p := by
  rw [Path.read]
  cases Path.parse text with
  | ok q =>
    constructor
    · intro h
      cases h
      rfl
    · intro h
      cases h
      rfl
  | error fault =>
    constructor
    · intro h
      cases h
    · intro h
      cases h

/-- A text is a path, or the error names all of it. -/
theorem Path.read_ok_or_invalidPath (text : String) :
    (∃ p, Path.read text = .ok p) ∨ ∃ fault, Path.read text = .error (.invalidPath text fault) := by
  rw [Path.read]
  cases Path.parse text with
  | ok p => exact .inl ⟨p, rfl⟩
  | error fault => exact .inr ⟨fault, rfl⟩

/-- A path as a caller gives it. -/
inductive Address where
  | text (text : String)
  | steps (steps : List Step)
  deriving DecidableEq, Repr

/-- The path of an address. -/
def Address.resolve : Address → Except AccessError Path
  | .text input => Path.read input
  | .steps list => match Path.ofSteps? list with
    | some p => .ok p
    | none => .error (.invalidPath "" .empty)

end DocPath
