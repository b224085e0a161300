/-!
# Paths

A path is a non-empty list of steps from a node: into a mapping by key, or into a sequence by
position. It is written `pods[0].containers[1].ready`: a dot before a key unless it opens the text,
and brackets around a position.
-/

namespace DocPath

/-- The two kinds of container that a step can need. -/
inductive Container where
  | object
  | array
  deriving DecidableEq, Repr

/-- How a message calls the container that is needed. -/
def Container.name : Container → String
  | .object => "an object"
  | .array => "an array"

/-- One step down. -/
inductive Step where
  | key (name : String)
  | index (position : UInt64)
  deriving DecidableEq, Repr

namespace Step

/-- The container that a step needs. -/
def needs : Step → Container
  | .key _ => .object
  | .index _ => .array

/-- The decimal digits of a position. -/
def digits (position : UInt64) : List Char := Nat.toDigits 10 position.toNat

/-- A step on its own. -/
def text : Step → String
  | .key name => name
  | .index position => String.ofList ('[' :: digits position ++ [']'])

/-- Steps one after the other; `started` says whether anything stands before them. -/
def renderFrom : (started : Bool) → List Step → List Char
  | _, [] => []
  | started, .key name :: rest =>
    (if started then '.' :: name.toList else name.toList) ++
      renderFrom (started || !name.toList.isEmpty) rest
  | _, .index position :: rest => '[' :: digits position ++ ']' :: renderFrom true rest

/-- The text of a list of steps. -/
def render (steps : List Step) : String := String.ofList (renderFrom false steps)

end Step

/-- A non-empty list of steps. -/
@[ext]
structure Path where
  steps : List Step
  steps_ne_nil : steps ≠ []
  deriving DecidableEq

namespace Path

/-- The path of a list of steps, if there are any. -/
def ofSteps? (steps : List Step) : Option Path :=
  if h : steps ≠ [] then some ⟨steps, h⟩ else none

/-- The path of one step. -/
def single (step : Step) : Path := ⟨[step], List.cons_ne_nil _ _⟩

def length (p : Path) : Nat := p.steps.length

/-- The final step. -/
def last (p : Path) : Step := p.steps.getLast p.steps_ne_nil

/-- The path without its final step, unless that is all of it. -/
def parent? (p : Path) : Option Path := ofSteps? p.steps.dropLast

/-- One path after the other. -/
def join (p q : Path) : Path := ⟨p.steps ++ q.steps, by simp [p.steps_ne_nil]⟩

/-- The text of a path. -/
def text (p : Path) : String := Step.render p.steps

/-- The text of the first `count` steps. -/
def textUpTo (p : Path) (count : Nat) : String := Step.render (p.steps.take count)

/-- The text of the first `count` steps, or a dot where that is empty. -/
def location (p : Path) (count : Nat) : String :=
  let text := p.textUpTo count
  if text.isEmpty then "." else text

instance : ToString Path := ⟨text⟩

end Path

end DocPath
