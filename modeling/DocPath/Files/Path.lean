import DocPath.Text.Pieces

/-!
# Paths of files

A path of a file is a text, split at its slashes. Two readings of it are kept apart. Its *pieces*
are what the system walks along, one after the other, so a piece that is empty or a dot asks for a
directory. Its *components* are what the path means as a text alone: empty pieces and dots inside it
do not count, and two dots stay, because what they lead to depends on the files.
-/

namespace DocPath

/-- A part of a path that counts. -/
inductive Component where
  /-- The slash at the front of an absolute path. -/
  | root
  /-- A dot at the front of a relative path. -/
  | here
  /-- Two dots. -/
  | above
  | name (text : String)
  deriving DecidableEq, Repr

/-- Whether a component is a name or means the place where the path starts. -/
def Component.isPlain : Component → Bool
  | .here | .name _ => true
  | .root | .above => false

namespace FilePath

/-- What the system walks along. -/
def pieces (path : String) : List String := (Text.pieces '/' path.toList).map String.ofList

theorem pieces_of_no_slash {piece : String} (h : '/' ∉ piece.toList) : pieces piece = [piece] := by
  rw [pieces, Text.pieces_of_not_mem h, List.map_singleton, String.ofList_toList]

/-- Whether a piece inside a path does not count. -/
def isIdle (piece : String) : Bool := piece = "" || piece = "."

/-- The component that a piece inside a path is, if it counts. -/
def component? (piece : String) : Option Component :=
  if isIdle piece then none
  else if piece = ".." then some .above
  else some (.name piece)

/-- The parts of a path that count. -/
def components (path : String) : List Component :=
  match pieces path with
  | [] | [""] => []
  | "" :: rest => .root :: rest.filterMap component?
  | "." :: rest => .here :: rest.filterMap component?
  | all => all.filterMap component?

def isAbsolute (path : String) : Bool := path.toList.head? = some '/'

/-- Whether a path ends in a slash. -/
def endsOpen (path : String) : Bool := path.toList.getLast? = some '/'

/-- A path that starts in a directory; an absolute one starts elsewhere. -/
def join (base path : String) : String :=
  if isAbsolute path then path
  else if base.isEmpty || endsOpen base then base ++ path
  else base ++ "/" ++ path

/-- The path with these pieces. -/
def ofPieces : List String → String
  | [""] => "/"
  | all => "/".intercalate all

/-- The paths of the directories on the way to the last component, the innermost first, from the
first piece and those after it in reverse. Each is written as it is in the whole path, up to a piece
that counts. -/
def outer (first : String) : (reversed : List String) → List String
  | [] => []
  | last :: before =>
    if isIdle last then outer first before
    else ofPieces (first :: (before.dropWhile isIdle).reverse) :: outer first before

/-- The path of the directory that a path lies in; the root lies in none, and neither does the empty
path. -/
def parent? (path : String) : Option String :=
  match pieces path with
  | [] => none
  | first :: rest => match outer first rest.reverse with
    | directory :: _ => some directory
    | [] => if first.isEmpty then none else some ""

/-- A path and those of the directories on the way to it, the innermost first. -/
def lineage (path : String) : List String :=
  match pieces path with
  | [] | [""] => []
  | first :: rest => path :: outer first rest.reverse

end FilePath

end DocPath
