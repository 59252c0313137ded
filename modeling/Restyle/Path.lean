import Restyle.Text.Search

/-!
# Paths

A path is a root and the names below it.  Empty names and names that stand for the same place are left
out when a path is read; steps upwards stay until the path is collapsed.
-/

namespace Restyle

/-- A path; the root is empty for a relative path. -/
structure Path where
  root : String := ""
  names : List String := []
  deriving DecidableEq, Repr

namespace Path

/-- The path that a text denotes.  Exactly two slashes at the start are a root of their own. -/
def ofText (s : String) : Path :=
  let cs := s.toList
  let slashes := (cs.takeWhile (· == '/')).length
  let root := if slashes == 0 then "" else if slashes == 2 then "//" else "/"
  let names := ((Text.splitAt '/' cs).map String.ofList).filter fun n => !n.isEmpty && n != "."
  { root := root, names := names }

/-- The text of a path. -/
def text (p : Path) : String :=
  let body := p.root ++ "/".intercalate p.names
  if body.isEmpty then "." else body

/-- Whether a path starts at a root. -/
def isAbsolute (p : Path) : Bool := !p.root.isEmpty

/-- A path below another one; an absolute path stands for itself. -/
def below (base p : Path) : Path :=
  if p.isAbsolute then p else { base with names := base.names ++ p.names }

/-- Carries out steps upwards; those that lead above a root are lost.  Steps in place are left out. -/
def collapseNames (isAbsolute : Bool) : List String → List String → List String
  | done, [] => done.reverse
  | done, name :: names =>
    if name == "." then collapseNames isAbsolute done names
    else if name == ".." then
      match done with
      | [] => collapseNames isAbsolute (if isAbsolute then [] else [".."]) names
      | last :: rest =>
        if last == ".." then collapseNames isAbsolute (".." :: done) names
        else collapseNames isAbsolute rest names
    else collapseNames isAbsolute (name :: done) names

/-- A path without steps upwards, as far as possible. -/
def collapse (p : Path) : Path :=
  { p with names := collapseNames p.isAbsolute [] p.names }

/-- The path around a path. -/
def parent (p : Path) : Path :=
  { p with names := p.names.dropLast }

/-- The last name. -/
def name (p : Path) : String :=
  p.names.getLast?.getD ""

/-- The end of a name from its last dot on, if something stands on both sides of the dot. -/
def suffixOf (name : String) : String :=
  let cs := name.toList
  let ending := cs.reverse.takeWhile (· != '.')
  let before := cs.length - ending.length
  if before ≤ 1 || ending.isEmpty then "" else String.ofList ('.' :: ending.reverse)

/-- The end of the last name. -/
def suffix (p : Path) : String := suffixOf p.name

/-- The last name without its end. -/
def stem (p : Path) : String :=
  let name := p.name.toList
  String.ofList (name.take (name.length - p.suffix.length))

/-- A path without the end of its last name. -/
def dropSuffix (p : Path) : Path :=
  if p.names.isEmpty then p else { p with names := p.names.dropLast ++ [p.stem] }

/-- The names that two lists start with. -/
def commonCount : List String → List String → Nat
  | a :: as, b :: bs => if a == b then commonCount as bs + 1 else 0
  | _, _ => 0

/-- The way from one absolute path to another. -/
def relativeTo (p start : Path) : Path :=
  let target := p.collapse.names
  let base := start.collapse.names
  let shared := commonCount target base
  { names := List.replicate (base.length - shared) ".." ++ target.drop shared }

end Path

end Restyle
