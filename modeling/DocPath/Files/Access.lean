import DocPath.Files.Fault

/-!
# Access to files

Whatever reads or writes files here does so through these operations alone, so it works on the files
of a machine and on files held in memory alike. A write replaces the whole file.
-/

namespace DocPath

/-- What a monad has to offer for files to be used in it. -/
class FileAccess (m : Type → Type) where
  readFile : (path : String) → m (Except FileFault ByteArray)
  writeFile : (path : String) → (content : ByteArray) → m (Except FileFault Unit)
  /-- Makes a directory and those that it lies in, as far as they are missing. -/
  makeDirectories : (path : String) → m (Except FileFault Unit)

/-- What a monad has to offer a program that runs in a terminal. -/
class Terminal (m : Type → Type) extends FileAccess m where
  /-- Reads the input up to its end. -/
  readInput : m ByteArray
  print : (text : String) → m Unit

end DocPath
