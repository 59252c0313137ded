import Restyle.Conversion.Basic
import Restyle.Path

/-!
# The world around the command line

Commands look at files and speak to the user through a world.  The world may be a directory in memory or
the real one; the commands are the same.
-/

namespace Restyle.Cli

open Restyle.Conversion (Level)

/-- Something that the user is shown. -/
inductive Event where
  | log (level : Level) (text : String)
  | print (text : String)
  | table (title : String) (headers : List String) (rows : List (List String))
  /-- A text on the standard output. -/
  | output (text : String)

/-- Why a file cannot be read or written. -/
inductive FileFault where
  | missing (path : String)
  | isDirectory (path : String)
  /-- A file stands where a directory has to be. -/
  | isFile (path : String)
  /-- A file stands on the way to a directory. -/
  | notDirectory (path : String)
  /-- Something else. -/
  | other (reason : String)
  deriving DecidableEq, Repr

/-- The message of the system. -/
def FileFault.message : FileFault → String
  | .missing p => "[Errno 2] No such file or directory: " ++ quoted p
  | .isDirectory p => "[Errno 21] Is a directory: " ++ quoted p
  | .isFile p => "[Errno 17] File exists: " ++ quoted p
  | .notDirectory p => "[Errno 20] Not a directory: " ++ quoted p
  | .other reason => reason
where
  quoted (p : String) : String := "'" ++ p ++ "'"

/-- What is found in a file that should declare an adapter. -/
inductive AdapterFile where
  | declared (adapter : Interpolation.ProjectAdapter)
  /-- The file declares nothing of the name. -/
  | undefined
  /-- What is declared answers no questions. -/
  | incomplete
  /-- The file cannot be loaded. -/
  | broken (reason : String)

/-- Access to files and to the user. -/
structure World (m : Type → Type) where
  /-- The working directory. -/
  directory : Path
  isFile : Path → m Bool
  isDirectory : Path → m Bool
  /-- The files below a directory, as paths from there. -/
  filesBelow : Path → m (List Path)
  read : Path → m (Except FileFault String)
  /-- Writes a file and makes the directories around it. -/
  write : Path → String → m (Except FileFault Unit)
  adapterAt : Path → m AdapterFile
  display : Event → m Unit

end Restyle.Cli
