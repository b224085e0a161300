import DocPath.Files.Access
import DocPath.Files.Path

/-!
# Files in memory

A place is the list of names on the way to it from the root, and files are a table of what stands at
which place. Relative paths start at the working directory. A path is walked piece by piece, and
every step on the way has to start in a directory; two dots go back by one name.

No operation takes anything away: what stands at a place can only be replaced by a file.
-/

namespace DocPath

/-- What stands at a place. -/
inductive Entry where
  | file (content : ByteArray)
  | directory

def Entry.isDirectory : Entry → Bool
  | .file _ => false
  | .directory => true

/-- The names on the way from the root. -/
abbrev Place := List String

/-- Files and directories; the root is always there. -/
structure Files where
  /-- Where relative paths start. -/
  home : Place
  entries : List (Place × Entry)

namespace Files

/-- Nothing but a working directory. -/
def empty : Files := ⟨["home"], [(["home"], .directory)]⟩

/-- What stands at a place. -/
def get? (files : Files) (place : Place) : Option Entry :=
  if place.isEmpty then some .directory else files.entries.lookup place

/-- Puts something at a place. -/
def put (place : Place) (entry : Entry) (files : Files) : Files :=
  { files with entries := (place, entry) :: files.entries.filter fun old => old.1 != place }

theorem get?_put_self {place : Place} (h : place ≠ []) (entry : Entry) (files : Files) :
    (files.put place entry).get? place = some entry := by
  simp [get?, put, h]

/-- Putting something at a place leaves all other places as they are. -/
theorem get?_put_of_ne {place other : Place} (h : other ≠ place) (entry : Entry) (files : Files) :
    (files.put place entry).get? other = files.get? other := by
  have filtered (entries : List (Place × Entry)) :
      (entries.filter fun old => old.1 != place).lookup other = entries.lookup other := by
    induction entries with
    | nil => rfl
    | cons old rest ih =>
      by_cases hold : old.1 = place
      · have : (other == old.1) = false := by simpa [hold] using h
        rw [List.filter_cons_of_neg (by simp [hold]), ih, List.lookup_cons, this]
      · rw [List.filter_cons_of_pos (by simp [hold]), List.lookup_cons, List.lookup_cons, ih]
  have : (other == place) = false := by simpa using h
  simp [get?, put, List.lookup_cons, this, filtered]

/-- The longest name, in bytes. -/
def nameLimit : Nat := 255

/-- Paths have fewer bytes than this. -/
def pathLimit : Nat := 4096

/-- What is wrong with a path whatever the files are. -/
def faultOf? (path : String) : Option FileFault :=
  if path.toList.contains '\x00' then some .badName
  else if path.isEmpty then some .notFound
  else if pathLimit ≤ path.utf8ByteSize then some .nameTooLong
  else none

/-- The place where a path starts. -/
def start (files : Files) (path : String) : Place :=
  if FilePath.isAbsolute path then [] else files.home

/-- Asks for a directory at a place. -/
def enter (files : Files) (place : Place) : Except FileFault Unit :=
  match files.get? place with
  | none => .error .notFound
  | some (.file _) => .error .notADirectory
  | some .directory => .ok ()

/-- The place of a name in a directory. -/
def below (place : Place) (name : String) : Except FileFault Place :=
  if nameLimit < name.utf8ByteSize then .error .nameTooLong else .ok (place ++ [name])

/-- Goes on by one piece of a path, from a directory. -/
def step (files : Files) (place : Place) (piece : String) : Except FileFault Place := do
  files.enter place
  if piece = "" ∨ piece = "." then pure place
  else if piece = ".." then pure place.dropLast
  else below place piece

/-- Goes along the pieces of a path. -/
def walk (files : Files) (place : Place) (pieces : List String) : Except FileFault Place :=
  pieces.foldlM files.step place

/-- The place that a path leads to, where nothing may stand yet. -/
def locate (files : Files) (path : String) : Except FileFault Place :=
  match faultOf? path with
  | some fault => .error fault
  | none => files.walk (files.start path) (FilePath.pieces path)

/-- The directory where something new can stand and the name that it would have, without regard to
slashes at the end of the path. A path that ends in dots, or is nothing but slashes, leads to a
directory that is there already. -/
def locateNew (files : Files) (path : String) : Except FileFault (Option (Place × String)) :=
  match faultOf? path with
  | some fault => .error fault
  | none =>
    match (FilePath.pieces path).reverse.dropWhile String.isEmpty with
    | [] => .ok none
    | last :: before => do
      let directory ← files.walk (files.start path) before.reverse
      files.enter directory
      pure (if last = "." ∨ last = ".." then none else some (directory, last))

def isDirectory (files : Files) (path : String) : Bool :=
  match files.locate path with
  | .ok place => (files.get? place).any Entry.isDirectory
  | .error _ => false

/-- The content of a file. -/
def read (files : Files) (path : String) : Except FileFault ByteArray := do
  let place ← files.locate path
  match files.get? place with
  | some (.file content) => pure content
  | some .directory => throw .isADirectory
  | none => throw .notFound

/-- Writes a file, in place of the one that is there. A path with a slash at its end asks for a
directory, whatever stands there. -/
def write (path : String) (content : ByteArray) (files : Files) : Except FileFault Files := do
  match ← files.locateNew path with
  | none => throw .isADirectory
  | some (directory, name) =>
    if FilePath.endsOpen path then throw .isADirectory
    let place ← below directory name
    if (files.get? place).any Entry.isDirectory then throw .isADirectory
    else pure (files.put place (.file content))

/-- Makes a directory in one that is there. -/
def makeDirectory (path : String) (files : Files) : Except FileFault Files := do
  match ← files.locateNew path with
  | none => throw .exists
  | some (directory, name) =>
    let place ← below directory name
    if (files.get? place).isSome then throw .exists else pure (files.put place .directory)

/-- Makes the directory at the first path, after those at the paths behind it if it has to. What was
made before a fault stays. -/
def makeDirectories : List String → Files → Except FileFault Unit × Files
  | [], files => (.ok (), files)
  | path :: outer, files =>
    match files.makeDirectory path with
    | .ok made => (.ok (), made)
    | .error .notFound =>
      match makeDirectories outer files with
      | (.error fault, left) => (.error fault, left)
      | (.ok (), left) => match left.makeDirectory path with
        | .ok made => (.ok (), made)
        | .error fault => (if left.isDirectory path then .ok () else .error fault, left)
    | .error fault => (if files.isDirectory path then .ok () else .error fault, files)

/-- Everything below the working directory, by the names on the way from there. -/
def listing (files : Files) : List (Place × Entry) :=
  files.entries.filterMap fun (place, entry) =>
    match place.drop files.home.length with
    | [] => none
    | rest => if files.home.isPrefixOf place then some (rest, entry) else none

end Files

instance : FileAccess (StateM Files) where
  readFile path files := (files.read path, files)
  writeFile path content files :=
    match files.write path content with
    | .ok written => (.ok (), written)
    | .error fault => (.error fault, files)
  makeDirectories path files :=
    Files.makeDirectories (FilePath.lineage path) files

end DocPath
