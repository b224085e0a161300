import DocPath.Files.Tree

/-!
# Sessions in memory

A session is what a program that runs in a terminal can see and change: files, the input that has
not been read yet, and the output so far.
-/

namespace DocPath.Cli

/-- What a program sees and changes. -/
structure Session where
  files : Files
  input : ByteArray
  output : String

/-- Files as they are, with an input and no output yet. -/
def Session.start (files : Files) (input : ByteArray) : Session := ⟨files, input, ""⟩

/-- Does something with the files of a session. -/
def Session.withFiles {α : Type} (action : StateM Files α) : StateM Session α := fun session =>
  let (a, files) := action.run session.files
  (a, { session with files })

instance : Terminal (StateM Session) where
  readFile path := Session.withFiles (FileAccess.readFile path)
  writeFile path content := Session.withFiles (FileAccess.writeFile path content)
  makeDirectories path := Session.withFiles (FileAccess.makeDirectories path)
  readInput session := (session.input, { session with input := .empty })
  print text session := ((), { session with output := session.output ++ text })

end DocPath.Cli
