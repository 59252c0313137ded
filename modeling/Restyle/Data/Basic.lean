import Restyle.Decimal.Double

/-!
# Structured data

Settings files, usage summaries and adapter answers arrive as untyped data: literals, lists and
objects whose fields keep the order they were written in.
-/

namespace Restyle

/-- Untyped data; the fields of an object are ordered and their names distinct. -/
inductive Data where
  | null
  | bool (b : Bool)
  | int (n : Int)
  | float (x : Double)
  | str (s : String)
  | list (items : List Data)
  | obj (fields : List (String × Data))
  deriving Inhabited

namespace Data

/-- Sets a field: an existing name keeps its place. -/
def setField (fields : List (String × Data)) (name : String) (value : Data) :
    List (String × Data) :=
  if fields.any (·.1 == name) then
    fields.map fun (n, v) => if n == name then (n, value) else (n, v)
  else fields ++ [(name, value)]

/-- The value of a field. -/
def field? (fields : List (String × Data)) (name : String) : Option Data :=
  (fields.find? (·.1 == name)).map (·.2)

/-- A field of an object; other data has no fields. -/
def get? : Data → String → Option Data
  | .obj fields, name => field? fields name
  | _, _ => none

/-- A field of an object, `null` when it is missing. -/
def get (d : Data) (name : String) : Data :=
  (d.get? name).getD .null

/-- The text of a string. -/
def str? : Data → Option String
  | .str s => some s
  | _ => none

/-- The items of a list. -/
def items? : Data → Option (List Data)
  | .list xs => some xs
  | _ => none

/-- The fields of an object. -/
def fields? : Data → Option (List (String × Data))
  | .obj fs => some fs
  | _ => none

/-- Whether data is absent. -/
def isNull : Data → Bool
  | .null => true
  | _ => false

end Data

end Restyle
