import Restyle.Data.Basic
import Restyle.Decimal.Reader
import Restyle.Decimal.Shortest
import Restyle.Style.Value

/-!
# Style values as data

The form in which style values are exchanged.  Numbers that are not whole, expressions, blocks, lists
and objects are marked by a field; an object is a list of pairs, so its order is kept.
-/

namespace Restyle.Style

/-- The key that data stands for. -/
def Key.ofData : Data → Key
  | .str s => .name s
  | d => .computed ((d.get "computed").str?.getD "")

/-- The object of a list of entries; a repeated key keeps its place and takes the last value. -/
def Object.ofEntries (entries : List (Key × Value)) : Object :=
  entries.foldl (fun o (k, v) => Object.set o k v) []

mutual

/-- The value that data stands for. -/
def Value.ofData : Data → Value
  | .null => .null
  | .bool b => .bool b
  | .int n => .int n
  | .float x => .float x
  | .str s => .text s
  | .list items => .list (valuesOfData items)
  | .obj [(mark, .str s)] =>
    if mark == "float" then .float ((Double.ofText? s).getD .nan)
    else if mark == "js" then .js s
    else if mark == "css" then .block s
    else .null
  | .obj [(mark, .list items)] =>
    if mark == "list" then .list (valuesOfData items)
    else if mark == "obj" then .obj (Object.ofEntries (entriesOfData items))
    else .null
  | .obj _ => .null

/-- The values of a list. -/
def valuesOfData : List Data → List Value
  | [] => []
  | d :: ds => Value.ofData d :: valuesOfData ds

/-- The entries of a list of pairs. -/
def entriesOfData : List Data → List (Key × Value)
  | [] => []
  | .list [key, value] :: ds => (Key.ofData key, Value.ofData value) :: entriesOfData ds
  | _ :: ds => entriesOfData ds

end

/-- The object that data stands for; other data stands for the empty one. -/
def Object.ofData (d : Data) : Object :=
  ((Value.ofData d).entries?).getD []

/-- A key as data. -/
def Key.toData : Key → Data
  | .name s => .str s
  | .computed code => .obj [("computed", .str code)]

mutual

/-- A value as data. -/
def Value.toData : Value → Data
  | .null => .null
  | .bool b => .bool b
  | .int n => .int n
  | .float x => .obj [("float", .str x.text)]
  | .text s => .str s
  | .js code => .obj [("js", .str code)]
  | .block css => .obj [("css", .str css)]
  | .list items => .obj [("list", .list (itemsToData items))]
  | .obj entries => .obj [("obj", .list (entriesToData entries))]

/-- The items of a list as data. -/
def itemsToData : List Value → List Data
  | [] => []
  | v :: vs => Value.toData v :: itemsToData vs

/-- The entries of an object as data. -/
def entriesToData : List (Key × Value) → List Data
  | [] => []
  | (k, v) :: rest => .list [k.toData, Value.toData v] :: entriesToData rest

end

/-- An object as data. -/
def Object.toData (o : Object) : Data := (Value.obj o).toData

end Restyle.Style
