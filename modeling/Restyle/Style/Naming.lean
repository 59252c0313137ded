import Restyle.Style.Render
import Restyle.Text.Blank

/-!
# Names of style entries

The names of generated entries are built from component and prop names, so the same module always
gives the same names.
-/

namespace Restyle.Style

/-- The registry key of a component: its name without dollar signs, first character small. -/
def styleKey (component : String) : String :=
  Text.lowerFirst (Text.replace "$" "" component)

/-- The words of a text, each with a capital, without the characters between them. -/
def camelize (text : String) : String :=
  let isSeparator (c : Char) : Bool := !(Text.isAsciiLetter c || Text.isAsciiDigit c)
  String.join ((Text.runsFrom isSeparator [] text.toList).map fun part =>
    Text.upperFirst (String.ofList part))

/-- The capitalized name of a prop, without its dollar signs and a leading `is`. -/
def propSuffix (prop : String) : String :=
  let name := Text.dropLeading '$' prop
  if Text.hasLead "is" name && Text.startsUpper (Text.dropFirst 2 name) then
    Text.upperFirst (Text.dropFirst 2 name)
  else Text.upperFirst name

/-- The suffix for a compared literal. -/
def literalSuffix : Value → String
  | .bool true => "True"
  | .bool false => "False"
  | .null => "Null"
  | v =>
    let text := camelize (spelled v)
    if text.isEmpty then "Empty" else text

/-- A literal as emitted code. -/
def literalCode : Value → String
  | .null => "null"
  | .bool true => "true"
  | .bool false => "false"
  | .int n => toString n
  | .float x => renderDouble x
  | v => Text.quote (spelled v)

end Restyle.Style
