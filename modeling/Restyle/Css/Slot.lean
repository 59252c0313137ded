import Restyle.Text.Blank
import Restyle.Text.Letter
import Restyle.Text.Search

/-!
# Interpolation slots

A template is read as plain text in which every interpolation is replaced by a slot mark that carries
its index.  This module writes the marks and finds them again.
-/

namespace Restyle.Css.Slot

/-- What every slot mark starts with. -/
def opening : List Char := "__INTERPOLATION_".toList

/-- What every slot mark ends with. -/
def closing : List Char := "__".toList

/-- The mark of the slot with a given index. -/
def mark (index : Nat) : List Char :=
  opening ++ Nat.toDigits 10 index ++ closing

/-- The mark of a slot as a string. -/
def markText (index : Nat) : String :=
  String.ofList (mark index)

/-- A mark at the start of a text: its index, its own text and the rest. -/
def read? (cs : List Char) : Option (Nat × List Char × List Char) := do
  let rest ← Text.after? opening cs
  let digits := rest.takeWhile Text.isDecimal
  if digits.isEmpty then none
  else
    let rest ← Text.after? closing (rest.dropWhile Text.isDecimal)
    return (Text.decimalNat digits, opening ++ digits ++ closing, rest)

/-- A piece of a text cut at its slot marks. -/
inductive Piece where
  | text (cs : List Char)
  | slot (index : Nat) (written : List Char)
  deriving Repr

/--
Cuts a text at its slot marks.  `skip` counts the characters of a mark that has been read already,
and `pending` is the open piece of text, reversed.  Between two marks, and at both ends, stands a
piece of text, which may be empty.
-/
def piecesFrom : Nat → List Char → List Char → List Piece
  | _, pending, [] => [.text pending.reverse]
  | skip + 1, pending, _ :: cs => piecesFrom skip pending cs
  | 0, pending, c :: cs =>
    match read? (c :: cs) with
    | some (index, written, _) =>
      .text pending.reverse :: .slot index written :: piecesFrom (written.length - 1) [] cs
    | none => piecesFrom 0 (c :: pending) cs

/-- The pieces of a text around its slot marks. -/
def pieces (cs : List Char) : List Piece :=
  piecesFrom 0 [] cs

/-- The index of a piece that is a slot. -/
def Piece.index? : Piece → Option Nat
  | .slot index _ => some index
  | .text _ => none

/-- The indices of the slots of a text, in order of appearance. -/
def indices (s : String) : List Nat :=
  (pieces s.toList).filterMap Piece.index?

/-- Whether a text holds a slot mark. -/
def present (s : String) : Bool :=
  !(indices s).isEmpty

/-- Whether a text is one slot mark, blanks around it aside. -/
def isWhole (s : String) : Bool :=
  match read? (Text.trim s.toList) with
  | some (_, _, []) => true
  | _ => false

/-- Replaces the marks of one slot by a text. -/
def fill (text : String) (index : Nat) (replacement : String) : String :=
  Text.replace (markText index) replacement text

/-- Whether a text holds a mark of a slot other than `index`. -/
def others (text : String) (index : Nat) : Bool :=
  (indices text).any (· != index)

/-- The text of a template: its segments with the marks of the slots between them. -/
def joinFrom : Nat → List String → String
  | _, [] => ""
  | _, [segment] => segment
  | index, segment :: segments => segment ++ markText index ++ joinFrom (index + 1) segments

/-- The text of a template from its literal segments. -/
def join (segments : List String) : String :=
  joinFrom 0 segments

end Restyle.Css.Slot
