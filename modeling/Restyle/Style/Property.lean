import Restyle.Decimal.Reader
import Restyle.Style.Value
import Restyle.Text.Blank
import Restyle.Text.Letter

/-!
# Properties and their values

Property names become camel-case tokens and back; raw values become literals: numbers where a property
takes plain numbers, the number zero everywhere, and quoted `content` texts.
-/

namespace Restyle.Style

/-- The token of a property name: camel case, a capital for a vendor, custom properties as written. -/
def camelCase (property : String) : String :=
  let name := Text.strip property
  if Text.hasLead "--" name then name
  else
    let name := Text.lower name
    let parts := ((Text.splitAt '-' name.toList).filter fun part => !part.isEmpty).map String.ofList
    match parts with
    | [] => name
    | head :: rest =>
      let head := if Text.hasLead "-" name && head != "ms" then Text.capitalize head else head
      head ++ String.join (rest.map Text.capitalize)

/-- A capital letter as a hyphen and its small letter. -/
def kebabChar (c : Char) : List Char :=
  if Text.isAsciiUpper c then '-' :: Text.lowerChar c else [c]

/-- The property name of a token. -/
def kebabCase (token : String) : String :=
  if Text.hasLead "--" token then token
  else
    let out := String.ofList (token.toList.flatMap kebabChar)
    let out := if Text.startsUpper token then "-" ++ Text.dropLeading '-' out else out
    if Text.hasLead "ms" token && Text.startsUpper (Text.dropFirst 2 token) then "-" ++ out else out

/-- The text before a final word in any case, if a text ends with it. -/
def beforeWord? (word : String) (cs : List Char) : Option (List Char) :=
  let n := word.length
  let tail := cs.drop (cs.length - n)
  if Text.afterAnyCase? word.toList tail == some [] then some (cs.take (cs.length - n)) else none

/-- The text before a final `!important`, if there is one. -/
def beforeImportant? (cs : List Char) : Option (List Char) := do
  let rest ← beforeWord? "important" (Text.trimEnd cs)
  match (Text.trimEnd rest).getLast? with
  | some '!' => some (Text.trimEnd (Text.trimEnd rest).dropLast)
  | _ => none

/-- A value without a final `!important`, and whether it had one. -/
def stripImportant (value : String) : String × Bool :=
  match beforeImportant? value.toList with
  | some rest => (String.ofList (Text.trim rest), true)
  | none => (Text.strip value, false)

/-- Digits with an optional point, at least one digit. -/
def isUnsignedNumeral (cs : List Char) : Bool :=
  let whole := cs.takeWhile Text.isDecimal
  match cs.dropWhile Text.isDecimal with
  | [] => !whole.isEmpty
  | '.' :: fraction => fraction.all Text.isDecimal && !(whole.isEmpty && fraction.isEmpty)
  | _ => false

/-- Whether a text is a plain number, blanks around it aside. -/
def isNumber (text : String) : Bool :=
  match Text.trim text.toList with
  | '-' :: cs => isUnsignedNumeral cs
  | cs => isUnsignedNumeral cs

/-- The literal of a plain number: an integer unless it has a point. -/
def numberLiteral (text : String) : Value :=
  match Double.ofNumeral? text.toList with
  | none => .text text
  | some x =>
    match x.toInt? with
    | some n => if text.toList.contains '.' then .float x else .int n
    | none => .float x

/-- Properties whose plain numbers carry no unit. -/
def unitlessProperties : List String :=
  ["animationIterationCount", "aspectRatio", "borderImageOutset", "borderImageSlice",
    "borderImageWidth", "boxFlex", "boxFlexGroup", "boxOrdinalGroup", "columnCount", "columns",
    "fillOpacity", "flex", "flexGrow", "flexNegative", "flexOrder", "flexPositive", "flexShrink",
    "floodOpacity", "fontWeight", "gridArea", "gridColumn", "gridColumnEnd", "gridColumnSpan",
    "gridColumnStart", "gridRow", "gridRowEnd", "gridRowSpan", "gridRowStart", "lineClamp",
    "lineHeight", "opacity", "order", "orphans", "scale", "stopOpacity", "strokeDasharray",
    "strokeDashoffset", "strokeMiterlimit", "strokeOpacity", "strokeWidth", "tabSize", "widows",
    "zIndex", "zoom"]

/-- Whether plain numbers of a property carry no unit. -/
def isUnitless (property : String) : Bool :=
  unitlessProperties.contains property

/-- Words of `content` that are not texts. -/
def contentKeywords : List String :=
  ["none", "normal", "open-quote", "close-quote", "no-open-quote", "no-close-quote", "inherit"]

/-- A `content` value in quotes, unless it has them, is a keyword or calls a function. -/
def quoteContent (value : String) : String :=
  let stripped := Text.strip value
  let cs := stripped.toList
  match cs with
  | [] => "\"\""
  | c :: _ =>
    if (c == '"' || c == '\'') && cs.getLast? == some c then stripped
    else if contentKeywords.contains stripped || cs.contains '(' then stripped
    else "\"" ++ stripped ++ "\""

/-- The literal of a static value of a property. -/
def normalizeValue (property raw : String) : Value :=
  let value := Text.squeeze raw
  if property == "content" then .text (quoteContent value)
  else if isNumber value && !Text.hasLead "--" property then
    if isUnitless property then numberLiteral value
    else
      match Double.ofNumeral? value.toList with
      | some x => if x.isZero then .int 0 else .text value
      | none => .text value
  else .text value

end Restyle.Style
