/-!
# Arguments of a command

A command has options, each with a long name and perhaps a letter. An option that takes a value has
it in the same argument, `--name=value`, `-lvalue` or `-l=value`, or in the next one, which then has
to be a word. Letters may stand together behind one sign. After two signs alone everything is a
word.

A command that has commands of its own reads up to the first word, which names one of them, and
leaves the rest to that one. Reading stops at the first argument that does not fit.

The texts that explain a program and its commands are left out. So `--help`, `-h` and the command
`help`, which ask for them, are names like any others that no command has, and count as misuse.
-/

namespace DocPath.Cli

/-- What an option takes, or asks for. -/
inductive Takes where
  | nothing
  | text
  /-- A text that is not empty. -/
  | path
  | oneOf (choices : List String)
  /-- Asks for the version, so that nothing else matters. -/
  | version
  deriving DecidableEq, Repr

def Takes.hasValue : Takes → Bool
  | .nothing | .version => false
  | .text | .path | .oneOf _ => true

def Takes.accepts : Takes → String → Bool
  | .path, value => !value.isEmpty
  | .oneOf choices, value => choices.contains value
  | .nothing, _ | .text, _ | .version, _ => true

/-- An option of a command. -/
structure Switch where
  name : String
  letter : Option Char
  takes : Takes
  deriving DecidableEq, Repr

/-- Why the reading of arguments stops. -/
inductive Stop where
  | misuse
  | version
  deriving DecidableEq, Repr

/-- The options that were given, with their values, the latest first. -/
abbrev Given := List (String × String)

/-- What an argument looks like. -/
inductive Shape where
  | word
  | separator
  | long (name : String) (value : Option String)
  | letters (letters : List Char)
  deriving DecidableEq, Repr

def shape (argument : String) : Shape :=
  match argument.toList with
  | ['-'] => .word
  | ['-', '-'] => .separator
  | '-' :: '-' :: body =>
    .long (String.ofList (body.takeWhile (· ≠ '=')))
      (match body.dropWhile (· ≠ '=') with
        | [] => none
        | _ :: value => some (String.ofList value))
  | '-' :: letters => .letters letters
  | _ => .word

/-- Notes an option that was given. No option may be given twice, and its value has to be one that
it takes. -/
def note (switch : Switch) (value : String) (given : Given) : Except Stop Given :=
  if switch.takes = .version then .error .version
  else if given.any fun old => old.1 = switch.name then .error .misuse
  else if switch.takes.accepts value then .ok ((switch.name, value) :: given)
  else .error .misuse

/-- Reads letters behind one sign. The answer names the option that still waits for its value. -/
def readLetters (switches : List Switch) :
    List Char → Given → Except Stop (Given × Option Switch)
  | [], given => .ok (given, none)
  | letter :: rest, given =>
    match switches.find? fun switch => switch.letter = some letter with
    | none => .error .misuse
    | some switch =>
      if switch.takes.hasValue then
        match rest with
        | [] => .ok (given, some switch)
        | '=' :: value => (note switch (String.ofList value) given).map (·, none)
        | value => (note switch (String.ofList value) given).map (·, none)
      else
        match note switch "" given with
        | .ok given => readLetters switches rest given
        | .error stop => .error stop

/-- Reads an option with a long name. The answer names the option that still waits for its value. -/
def readLong (switches : List Switch) (name : String) (value : Option String) (given : Given) :
    Except Stop (Given × Option Switch) :=
  match switches.find? fun switch => switch.name = name, value with
  | none, _ => .error .misuse
  | some switch, none =>
    if switch.takes.hasValue then .ok (given, some switch)
    else (note switch "" given).map (·, none)
  | some switch, some value =>
    if switch.takes.hasValue then (note switch value given).map (·, none) else .error .misuse

/-- What a command makes of its arguments. -/
structure Reading where
  given : Given
  words : List String
  /-- What is left to a command of its own. -/
  rest : List String
  deriving DecidableEq, Repr

/-- Reads arguments on top of what was read before, while an option may wait for its value. `nested`
says that the command has commands of its own. -/
def readOn (switches : List Switch) (nested : Bool) :
    (waiting : Option Switch) → List String → Reading → Except Stop Reading
  | none, [], reading => .ok reading
  | some _, [], _ => .error .misuse
  | some switch, argument :: rest, reading =>
    match shape argument with
    | .word => match note switch argument reading.given with
      | .ok given => readOn switches nested none rest { reading with given }
      | .error stop => .error stop
    | _ => .error .misuse
  | none, argument :: rest, reading =>
    match shape argument with
    | .word =>
      let reading := { reading with words := reading.words ++ [argument] }
      if nested then .ok { reading with rest } else readOn switches nested none rest reading
    | .separator =>
      if nested then .error .misuse else .ok { reading with words := reading.words ++ rest }
    | .long name value => match readLong switches name value reading.given with
      | .ok (given, waiting) => readOn switches nested waiting rest { reading with given }
      | .error stop => .error stop
    | .letters letters => match readLetters switches letters reading.given with
      | .ok (given, waiting) => readOn switches nested waiting rest { reading with given }
      | .error stop => .error stop

/-- Reads the arguments of a command. -/
def read (switches : List Switch) (nested : Bool) (arguments : List String) :
    Except Stop Reading :=
  readOn switches nested none arguments ⟨[], [], []⟩

end DocPath.Cli
