import DocPath.Number.Numeral
import DocPath.Path.Basic
import DocPath.Text.Pieces

/-!
# Reading paths

One leading dot is ignored and the rest is split at dots into segments. A segment is a name,
bracketed positions, or a name and then positions:

    path     =  ["."] segment *("." segment)
    segment  =  name *index  /  1*index
    index    =  "[" 1*digit "]"

A name is any text without a dot or a bracket, and a position fits 64 bits. The first fault from the
left is reported.
-/

namespace DocPath

/-- Why a text is no path. -/
inductive PathFault where
  | empty
  | onlyDot
  | emptySegment
  | strayClose (segment : String)
  | unterminated (segment : String)
  | nested (segment : String)
  | notDigits (digits : String)
  | outOfRange (digits : String)
  | trailing (rest segment : String)
  /-- A fault that a caller words itself. -/
  | other (reason : String)
  deriving DecidableEq, Repr

namespace PathFault

/-- What is wrong with this input. -/
def message (input : String) : PathFault → String
  | .empty => "path cannot be empty"
  | .onlyDot => s!"invalid path '{input}': no segments after leading '.'"
  | .emptySegment => s!"invalid path '{input}': empty segment"
  | .strayClose segment => s!"invalid path '{input}': unexpected ']' in '{segment}'"
  | .unterminated segment => s!"invalid path '{input}': unterminated '[' in '{segment}'"
  | .nested segment => s!"invalid path '{input}': nested '[' in '{segment}'"
  | .notDigits digits => s!"invalid path '{input}': index '{digits}' is not a non-negative integer"
  | .outOfRange digits => s!"invalid path '{input}': index '{digits}' is out of range"
  | .trailing rest segment =>
    s!"invalid path '{input}': unexpected '{rest}' after index in '{segment}'"
  | .other reason => reason

end PathFault

namespace Path

/-- The position that digits denote. -/
def readPosition (digits : List Char) : Except PathFault UInt64 :=
  match Numeral.natOfDigits? 10 digits with
  | none => .error (.notDigits (String.ofList digits))
  | some n =>
    if n < Nat.pow 2 64 then .ok (UInt64.ofNat n) else .error (.outOfRange (String.ofList digits))

/-- The bracketed positions that a segment ends in; `fuel` bounds how many there can be. -/
def readPositions (segment : List Char) : (fuel : Nat) → List Char → Except PathFault (List Step)
  | _, [] => .ok []
  | 0, _ :: _ => .error (.unterminated (String.ofList segment))
  | fuel + 1, c :: body =>
    if c ≠ '[' then .error (.trailing (String.ofList (c :: body)) (String.ofList segment))
    else
      let digits := body.takeWhile (· ≠ ']')
      match body.dropWhile (· ≠ ']') with
      | [] => .error (.unterminated (String.ofList segment))
      | _ :: rest =>
        if digits.contains '[' then .error (.nested (String.ofList segment))
        else do
          let position ← readPosition digits
          let more ← readPositions segment fuel rest
          pure (.index position :: more)

/-- The steps of one segment. -/
def readSegment (segment : List Char) : Except PathFault (List Step) :=
  if segment.isEmpty then .error .emptySegment
  else
    let name := segment.takeWhile (· ≠ '[')
    if name.contains ']' then .error (.strayClose (String.ofList segment))
    else do
      let positions ← readPositions segment segment.length (segment.dropWhile (· ≠ '['))
      pure (if name.isEmpty then positions else .key (String.ofList name) :: positions)

/-- The steps of a list of segments. -/
def readSegments : List (List Char) → Except PathFault (List Step)
  | [] => .ok []
  | segment :: rest => do
    let steps ← readSegment segment
    let more ← readSegments rest
    pure (steps ++ more)

/-- The text after one leading dot, if it has one. -/
def dropLeadingDot : List Char → List Char
  | '.' :: rest => rest
  | cs => cs

/-- Reads a path. -/
def parse (input : String) : Except PathFault Path :=
  if input.toList.isEmpty then .error .empty
  else
    let body := dropLeadingDot input.toList
    if body.isEmpty then .error .onlyDot
    else do
      let steps ← readSegments (Text.pieces '.' body)
      match ofSteps? steps with
      | some p => pure p
      | none => .error .emptySegment

end Path

end DocPath
