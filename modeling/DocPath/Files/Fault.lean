/-!
# Faults of files

Why a file could not be read or written, in the words and numbers that the system has for it.
-/

namespace DocPath

/-- Why an operation on files failed. -/
inductive FileFault where
  | notFound
  | notADirectory
  | isADirectory
  | nameTooLong
  | exists
  /-- A name holds the zero character. -/
  | badName
  /-- A file that is read as text is not in UTF-8. -/
  | badText
  /-- A fault that a caller words itself. -/
  | other (missing : Bool) (text : String)
  deriving DecidableEq, Repr

namespace FileFault

/-- Whether something was not there. -/
def isNotFound : FileFault → Bool
  | .notFound => true
  | .other missing _ => missing
  | _ => false

/-- The number that the system has for a fault. -/
def number? : FileFault → Option Nat
  | .notFound => some 2
  | .notADirectory => some 20
  | .isADirectory => some 21
  | .nameTooLong => some 36
  | .exists => some 17
  | .badName | .badText | .other _ _ => none

/-- The fault that a number means. -/
def ofNumber? (n : Nat) : Option FileFault :=
  [.notFound, .notADirectory, .isADirectory, .nameTooLong, .exists].find? fun fault : FileFault =>
    fault.number? = some n

/-- The sort of a fault, in one word. -/
def sort : FileFault → String
  | .notFound => "NotFound"
  | .notADirectory => "NotADirectory"
  | .isADirectory => "IsADirectory"
  | .nameTooLong => "InvalidFilename"
  | .exists => "AlreadyExists"
  | .badName => "InvalidInput"
  | .badText => "InvalidData"
  | .other missing _ => if missing then "NotFound" else "Other"

def text : FileFault → String
  | .notFound => "No such file or directory"
  | .notADirectory => "Not a directory"
  | .isADirectory => "Is a directory"
  | .nameTooLong => "File name too long"
  | .exists => "File exists"
  | .badName => "file name contained an unexpected NUL byte"
  | .badText => "stream did not contain valid UTF-8"
  | .other _ text => text

/-- The text of a fault, with its number. -/
def message (fault : FileFault) : String :=
  match fault.number? with
  | some n => s!"{fault.text} (os error {n})"
  | none => fault.text

end FileFault

end DocPath
