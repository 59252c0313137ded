import Restyle.Text.Letter
import Restyle.Text.Search

/-!
# Scanning for readings

A reading is tried at every place of a text, from left to right.  A reading that fits is collected, and
the scan goes on after it.
-/

namespace Restyle.Text

/--
Collects readings.  A reader sees the character before a place and the text from there on, and tells how
many characters it takes.  `skip` counts the characters of a reading that has been collected.
-/
def collectFrom {α : Type} (read? : Option Char → List Char → Option (α × Nat)) (last : Option Char) :
    Nat → List Char → List α
  | _, [] => []
  | skip + 1, c :: cs => collectFrom read? (some c) skip cs
  | 0, c :: cs =>
    match read? last (c :: cs) with
    | some (a, n) => a :: collectFrom read? (some c) (n - 1) cs
    | none => collectFrom read? (some c) 0 cs

/-- All readings of a text; a reader returns the rest of the text after it. -/
def collect {α : Type} (read? : Option Char → List Char → Option (α × List Char)) (cs : List Char) :
    List α :=
  collectFrom (fun last cs => (read? last cs).map fun (a, rest) => (a, cs.length - rest.length))
    none 0 cs

/-- Removes readings.  `skip` counts the characters of a reading that has been removed. -/
def removeFrom (read? : Option Char → List Char → Option Nat) (last : Option Char) :
    Nat → List Char → List Char
  | _, [] => []
  | skip + 1, c :: cs => removeFrom read? (some c) skip cs
  | 0, c :: cs =>
    match read? last (c :: cs) with
    | some n => removeFrom read? (some c) (n - 1) cs
    | none => c :: removeFrom read? (some c) 0 cs

/-- A text without the readings of a reader that returns the rest. -/
def removeAll {α : Type} (read? : Option Char → List Char → Option (α × List Char)) (cs : List Char) :
    List Char :=
  removeFrom (fun last cs => (read? last cs).map fun (_, rest) => cs.length - rest.length) none 0 cs

/-- Whether a word stands in a text, not as a part of a longer one. -/
def hasWord (word text : String) : Bool :=
  let read? (last : Option Char) (cs : List Char) : Option (Unit × List Char) := do
    if last.any isWordChar then none
    let rest ← after? word.toList cs
    if rest.head?.any isWordChar then none else some ((), rest)
  !(collect read? text.toList).isEmpty

/-- Characters of names of props. -/
def isPropChar (c : Char) : Bool :=
  isWordChar c || c == '$'

/-- Whether a name stands in a text as a value: not inside a longer name and not as a member. -/
def namesValue (name text : String) : Bool :=
  let read? (last : Option Char) (cs : List Char) : Option (Unit × List Char) := do
    if last.any fun c => isPropChar c || c == '.' then none
    let rest ← after? name.toList cs
    if rest.head?.any isPropChar then none else some ((), rest)
  !(collect read? text.toList).isEmpty

end Restyle.Text
