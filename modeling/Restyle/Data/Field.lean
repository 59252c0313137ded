import Restyle.Data.Basic

/-!
# Fields of data

Readers for data whose form is known: what is missing or of another form reads as empty.  Beside them
stand the shapes that are written most often.
-/

namespace Restyle

instance : Coe String Data := ⟨.str⟩

instance : Coe Bool Data := ⟨.bool⟩

instance : Coe Nat Data := ⟨fun n => .int n⟩

instance : Coe (List Data) Data := ⟨.list⟩

namespace Data

/-- A text. -/
def text (d : Data) : String := d.str?.getD ""

/-- The items of a list. -/
def items (d : Data) : List Data := d.items?.getD []

/-- The texts of a list. -/
def texts (d : Data) : List String := d.items.map text

/-- A whole number. -/
def integer : Data → Int
  | .int n => n
  | _ => 0

/-- Whether data is there and neither empty nor zero. -/
def truthy : Data → Bool
  | .null => false
  | .bool b => b
  | .int n => n != 0
  | .float x => !x.isZero
  | .str s => !s.isEmpty
  | .list xs => !xs.isEmpty
  | .obj fs => !fs.isEmpty

/-- The text of a field. -/
def textAt (d : Data) (name : String) : String := (d.get name).text

/-- The text of a field that may be missing. -/
def textAt? (d : Data) (name : String) : Option String := (d.get name).str?

/-- The text of a field, or another one when it is missing. -/
def textOr (d : Data) (name other : String) : String := (d.textAt? name).getD other

/-- The items of a field. -/
def listAt (d : Data) (name : String) : List Data := (d.get name).items

/-- The texts of a field. -/
def textsAt (d : Data) (name : String) : List String := (d.get name).texts

/-- The number of a field. -/
def natAt (d : Data) (name : String) : Nat := (d.get name).integer.toNat

/-- Whether a field is there and neither empty nor zero. -/
def flagAt (d : Data) (name : String) : Bool := (d.get name).truthy

/-- The same, with a value for a missing field. -/
def flagOr (d : Data) (name : String) (other : Bool) : Bool :=
  if (d.get name).isNull then other else d.flagAt name

/-- The pairs of a field. -/
def pairsAt (d : Data) (name : String) : List (Data × Data) :=
  (d.listAt name).filterMap fun
    | .list [a, b] => some (a, b)
    | _ => none

/-- A list of texts. -/
def ofTexts (xs : List String) : Data := .list (xs.map str)

/-- A text that may be missing. -/
def ofText? : Option String → Data
  | some s => .str s
  | none => .null

/-- A pair. -/
def pair (a b : Data) : Data := .list [a, b]

/-- A table of texts as a list of pairs. -/
def ofPairs (rows : List (String × String)) : Data :=
  .list (rows.map fun (a, b) => pair a b)

end Data

end Restyle
