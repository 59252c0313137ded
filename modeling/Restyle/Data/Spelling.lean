import Restyle.Data.Basic
import Restyle.Decimal.Shortest
import Restyle.Style.Render

/-!
# Data in messages

The spelling of data inside a message: texts in quotes, lists and objects in their brackets.
-/

namespace Restyle.Data

mutual

/-- The spelling of data. -/
def spelled : Data → String
  | .null => "None"
  | .bool true => "True"
  | .bool false => "False"
  | .int n => toString n
  | .float x => x.text
  | .str s => Style.spelledQuoted s
  | .list items => "[" ++ ", ".intercalate (spelledItems items) ++ "]"
  | .obj fields => "\x7b" ++ ", ".intercalate (spelledFields fields) ++ "\x7d"

/-- The spellings of items. -/
def spelledItems : List Data → List String
  | [] => []
  | d :: ds => d.spelled :: spelledItems ds

/-- The spellings of fields. -/
def spelledFields : List (String × Data) → List String
  | [] => []
  | (name, d) :: rest =>
    (Style.spelledQuoted name ++ ": " ++ d.spelled) :: spelledFields rest

end

end Restyle.Data
