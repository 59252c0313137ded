import Restyle.Cli.Run

/-!
# The program

The commands in the real world: files are those of the file system, and the user is shown plain text.
An adapter is a file that holds its tables as data.
-/

namespace Restyle.Cli

open Restyle.Conversion (Level)

/-- The text of a table: its title, its headers and its rows. -/
def tableText (title : String) (headers : List String) (rows : List (List String)) : String :=
  "\n".intercalate (title :: (headers :: rows).map fun row => "  " ++ " | ".intercalate row)

/-- Shows something to the user. -/
def displayEvent : Event → IO Unit
  | .log level text => IO.eprintln (level.text ++ " " ++ text)
  | .print text => IO.eprintln text
  | .table title headers rows => IO.eprintln (tableText title headers rows)
  | .output text => IO.print text

/-- Runs an action; a failure of the system is a fault. -/
def attempt {α : Type} (action : IO α) : IO (Except FileFault α) := do
  try
    return .ok (← action)
  catch e => return .error (.other (toString e))

/-- Whether a path leads to a directory. -/
def isRealDirectory (p : Path) : IO Bool := do
  match ← attempt (IO.FS.realPath p.text) with
  | .ok real => real.isDir
  | .error _ => return false

/-- Whether a path leads to a file. -/
def isRealFile (p : Path) : IO Bool := do
  match ← attempt (IO.FS.realPath p.text) with
  | .ok real => return (← real.pathExists) && !(← real.isDir)
  | .error _ => return false

/-- The files below a directory. -/
def realFilesBelow (p : Path) : IO (List Path) := do
  let top ← IO.FS.realPath p.text
  let start := Path.ofText top.toString
  let entries ← top.walkDir
  let files ← entries.toList.filterM fun entry => return !(← entry.isDir)
  return files.map fun entry => (Path.ofText entry.toString).relativeTo start

/-- Reads a file. -/
def readReal (p : Path) : IO (Except FileFault String) := do
  if ← isRealDirectory p then return .error (.isDirectory p.text)
  if !(← isRealFile p) then return .error (.missing p.text)
  attempt (IO.FS.readFile p.text)

/-- Writes a file and makes the directories around it. -/
def writeReal (p : Path) (text : String) : IO (Except FileFault Unit) :=
  attempt do
    IO.FS.createDirAll p.parent.text
    IO.FS.writeFile p.text text

/-- Loads an adapter. -/
def readRealAdapter (p : Path) : IO AdapterFile := do
  match ← readReal p with
  | .error f => return .broken f.message
  | .ok text =>
    let declared : Option Data := (Data.ofJson? text).map fun d => d.get "adapter"
    match declared with
    | none => return .broken "the file holds no data"
    | some .null => return .undefined
    | some (.obj fields) => return .declared (Interpolation.ProjectAdapter.ofData (.obj fields))
    | some _ => return .incomplete

/-- The file system as a world. -/
def realWorld (directory : Path) : World IO where
  directory := directory
  isFile := isRealFile
  isDirectory := isRealDirectory
  filesBelow := realFilesBelow
  read := readReal
  write := writeReal
  adapterAt := readRealAdapter
  display := displayEvent

/-- What is said about a command that broke off. -/
def Fault.message : Fault → String
  | .config f => "Invalid settings. " ++ f.message
  | .conversion _ => "A module could not be converted."
  | .file f => f.message

end Restyle.Cli

open Restyle.Cli in
/-- Carries out what the arguments ask for. -/
def main (args : List String) : IO UInt32 := do
  let directory ← IO.FS.realPath "."
  match ← (run (realWorld (Restyle.Path.ofText directory.toString)) args).run with
  | .ok code => return code.toUInt32
  | .error f =>
    IO.eprintln f.message
    return 1
