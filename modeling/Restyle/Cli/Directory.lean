import Restyle.Cli.World
import Restyle.Table

/-!
# A directory in memory

A world that consists of the files of one directory and remembers what the user was shown.
-/

namespace Restyle.Cli

/-- The files of a directory by their absolute paths, the adapters among them, and what was shown. -/
structure Directory where
  root : Path
  files : Table String := []
  adapters : Table AdapterFile := []
  events : List Event := []

namespace Directory

/-- The absolute path of a path. -/
def resolve (d : Directory) (p : Path) : Path :=
  (d.root.below p).collapse

/-- The text of a file. -/
def text? (d : Directory) (p : Path) : Option String :=
  d.files.get? (d.resolve p).text

/-- The names of the files below a directory, seen from there. -/
def below (d : Directory) (p : Path) : List (List String) :=
  let names := (d.resolve p).names
  d.files.names.filterMap fun file =>
    let own := (Path.ofText file).names
    if names.isPrefixOf own && names.length < own.length then some (own.drop names.length) else none

/-- Whether a path leads to a directory: to the root, to one around it or to one with files. -/
def isDirectory (d : Directory) (p : Path) : Bool :=
  (d.resolve p).names.isPrefixOf d.root.names || !(d.below p).isEmpty

/-- The file that stands in the way of a directory: at its place, or before it. -/
def obstacle? (d : Directory) (p : Path) : Option FileFault :=
  let names := p.names
  ((List.range names.length).findSome? fun n =>
    let lead : Path := { p with names := names.take (n + 1) }
    if (d.text? lead).isSome then
      some (if n + 1 == names.length then .isFile p.text else .notDirectory p.text)
    else none)

/-- Writes a file. -/
def write (d : Directory) (p : Path) (text : String) : Except FileFault Unit × Directory :=
  match d.obstacle? p.parent with
  | some f => (.error f, d)
  | none =>
    if d.isDirectory p then (.error (.isDirectory p.text), d)
    else (.ok (), { d with files := d.files.set (d.resolve p).text text })

/-- Reads a file. -/
def read (d : Directory) (p : Path) : Except FileFault String :=
  match d.text? p with
  | some text => .ok text
  | none => .error (if d.isDirectory p then .isDirectory p.text else .missing p.text)

/-- The directory as a world. -/
def world (root : Path) : World (StateM Directory) where
  directory := root
  isFile p := return ((← get).text? p).isSome
  isDirectory p := return (← get).isDirectory p
  filesBelow p := return ((← get).below p).map fun names => { names := names }
  read p := return (← get).read p
  write p text := modifyGet fun d => d.write p text
  adapterAt p := return ((← get).adapters.get? ((← get).resolve p).text).getD .undefined
  display e := modify fun d => { d with events := d.events ++ [e] }

end Directory

end Restyle.Cli
