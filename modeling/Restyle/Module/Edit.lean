import Restyle.Text.Bytes

/-!
# Edits

A module is never printed anew.  All changes are edits of its bytes, applied in one go, so that what no
edit touches stays as it is.
-/

namespace Restyle.Module

/-- Puts a text in the place of the bytes from `start` up to `stop`. -/
structure Edit where
  start : Nat
  stop : Nat
  text : String
  /-- Orders edits of the same place, lower ones first. -/
  priority : Int := 0
  deriving DecidableEq, Repr

/-- Why edits cannot be applied. -/
inductive EditFault where
  | overlap (start cursor : Nat)
  | notText
  deriving DecidableEq, Repr

/-- The message of an overlap. -/
def EditFault.message : EditFault → String
  | .overlap start cursor =>
    "Overlapping edit at byte " ++ toString start ++ " (cursor " ++ toString cursor ++ ")"
  | .notText => "invalid text"

namespace Edit

/-- Inserts a text. -/
def insertion (place : Nat) (text : String) (priority : Int) : Edit :=
  { start := place, stop := place, text, priority }

/-- Removes a range. -/
def deletion (start stop : Nat) : Edit :=
  { start, stop, text := "" }

/-- Earlier places come first, then shorter ranges, then lower priorities. -/
def before (a b : Edit) : Bool :=
  if a.start != b.start then a.start < b.start
  else if a.stop != b.stop then a.stop < b.stop
  else a.priority ≤ b.priority

/-- The bytes that edits in order make of a module from `cursor` on. -/
def splice (source : List UInt8) : Nat → List Edit → Except EditFault (List UInt8)
  | cursor, [] => .ok (source.drop cursor)
  | cursor, e :: edits =>
    if e.start < cursor then .error (.overlap e.start cursor)
    else do
      let rest ← splice source e.stop edits
      return Text.sliceBytes source cursor e.start ++ Text.encode e.text ++ rest

/-- Applies edits to a module. -/
def applyAll (source : List UInt8) (edits : List Edit) : Except EditFault String := do
  let bytes ← splice source 0 (edits.mergeSort before)
  match Text.decode? bytes with
  | some text => .ok text
  | none => .error .notText

end Edit

/-- The start of the line of an offset. -/
def lineStart (source : List UInt8) (offset : Nat) : Nat :=
  let before := source.take offset
  before.length - (before.reverse.takeWhile (· != Text.lineBreak)).length

/--
The range to remove with a statement.  A statement that has its lines for itself takes them along, and
with them one of two empty lines around it.
-/
def statementRange (source : List UInt8) (start stop : Nat) : Nat × Nat :=
  let first := lineStart source start
  if (Text.sliceBytes source first start).any fun b => !Text.isBlankByte b then (start, stop)
  else
    let blanks := ((source.drop stop).takeWhile fun b => b == 0x20 || b == 0x09).length
    let last := stop + blanks
    match source.drop last with
    | [] => (start, stop)
    | b :: rest =>
      if b != Text.lineBreak then (start, stop)
      else
        let afterEmpty := first == 0 ||
          (2 ≤ first && Text.sliceBytes source (first - 2) first == [Text.lineBreak, Text.lineBreak])
        if rest.head? == some Text.lineBreak && afterEmpty then (first, last + 2)
        else (first, last + 1)

end Restyle.Module
