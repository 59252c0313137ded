import Restyle.Css.Slot
import Restyle.Css.Split
import Restyle.Style.Property

/-!
# Shorthand properties

A shorthand with several values is written as its longhands.  A border takes a width, a style and a
color; margins and paddings take two to four sides; an animation its parts; a background a single
color.  A shorthand that does not fit stays as it is.
-/

namespace Restyle.Style

/-- The three values a border is made of. -/
inductive BorderPart where
  | width
  | style
  | color
  deriving DecidableEq, Repr

/-- The name of a border part. -/
def BorderPart.name : BorderPart → String
  | .width => "width"
  | .style => "style"
  | .color => "color"

/-- The suffix of a border part in a longhand. -/
def BorderPart.suffix : BorderPart → String
  | .width => "Width"
  | .style => "Style"
  | .color => "Color"

/-- The words for the style of a border. -/
def borderStyles : List String :=
  ["none", "hidden", "dotted", "dashed", "solid", "double", "groove", "ridge", "inset", "outset"]

/-- The words for the width of a border. -/
def borderWidths : List String := ["thin", "medium", "thick"]

/-- The shorthands made of a width, a style and a color. -/
def borderShorthands : List String :=
  ["border", "borderTop", "borderRight", "borderBottom", "borderLeft", "borderBlock", "borderInline",
    "outline"]

/-- Whether a property is a border shorthand. -/
def isBorderShorthand (property : String) : Bool :=
  borderShorthands.contains property

/-- The names of the functions that give a color. -/
def colorFunctions : List String :=
  ["rgb", "rgba", "hsl", "hsla", "hwb", "lab", "lch", "oklab", "oklch", "color"]

/-- Three to eight hexadecimal digits after a number sign; a line break may follow. -/
def isHexColor (token : String) : Bool :=
  match token.toList with
  | '#' :: cs =>
    let digits := if cs.getLast? == some '\n' then cs.dropLast else cs
    3 ≤ digits.length && digits.length ≤ 8 && digits.all fun c => (Text.hexValue? c).isSome
  | _ => false

/-- Whether a token starts with a function that gives a color, in any case. -/
def isColorCall (token : String) : Bool :=
  colorFunctions.any fun name => (Text.afterAnyCase? (name ++ "(").toList token.toList).isSome

/-- Whether a token is a color. -/
def isColorToken (token : String) : Bool :=
  let lowered := Text.lower token
  isHexColor token || isColorCall token || Text.hasLead "var(" lowered ||
    (!token.isEmpty && token.toList.all Text.isLetter && !borderStyles.contains lowered &&
      !borderWidths.contains lowered)

/-- The border part that a static token stands for. -/
def borderPartOf (token : String) : BorderPart :=
  let lowered := Text.lower token
  let startsDigit :=
    match token.toList with
    | c :: _ => Text.isDigitSign c || c == '.'
    | [] => false
  if borderStyles.contains lowered then .style
  else if borderWidths.contains lowered || startsDigit || Text.hasLead "calc(" lowered then .width
  else .color

/-- The border parts that the static tokens other than the one at `index` take. -/
def takenParts (tokens : List String) (index : Nat) : List BorderPart :=
  tokens.zipIdx.filterMap fun (token, i) =>
    if i != index && !Css.Slot.present token then some (borderPartOf token) else none

/--
The border part an interpolated token stands for: the only one left, else by position the width first,
the style in the middle and the color last, else the color.
-/
def inferBorderPart (tokens : List String) (index : Nat) : BorderPart :=
  let taken := takenParts tokens index
  let remaining := [BorderPart.width, .style, .color].filter fun part => !taken.contains part
  match remaining with
  | [part] => part
  | _ =>
    if tokens.length > 1 then
      if index + 1 == tokens.length && remaining.contains .color then .color
      else if index == 0 && remaining.contains .width then .width
      else if 0 < index && index + 1 < tokens.length && remaining.contains .style then .style
      else .color
    else .color

/-- The longhand of a border shorthand for one of its parts. -/
def borderLonghand (property : String) (part : BorderPart) : String :=
  property ++ part.suffix

/-- The longhand that an interpolated token of a border resolves to. -/
def borderTarget (property : String) (tokens : List String) (index : Nat) : String :=
  if !isBorderShorthand property || tokens.length < 2 then property
  else borderLonghand property (inferBorderPart tokens index)

/-- Longhands with their tokens. -/
abbrev Expansion := List (String × String)

/-- Adds longhands one by one; a longhand that is already used refuses the expansion. -/
def distinctExpansion : List String → Expansion → Option Expansion
  | _, [] => some []
  | used, (longhand, token) :: rest =>
    if used.contains longhand then none
    else (distinctExpansion (longhand :: used) rest).map ((longhand, token) :: ·)

/-- The longhands of a border. -/
def expandBorder (property : String) (tokens : List String) : Option Expansion :=
  if tokens.length < 2 then none
  else
    distinctExpansion [] (tokens.zipIdx.map fun (token, i) =>
      let part := if Css.Slot.present token then inferBorderPart tokens i else borderPartOf token
      (borderLonghand property part, token))

/-- The longhands of a margin or padding. -/
def expandBox (property : String) : List String → Option Expansion
  | [block, inline] => some [(property ++ "Block", block), (property ++ "Inline", inline)]
  | [top, inline, bottom] =>
    some [(property ++ "Top", top), (property ++ "Inline", inline), (property ++ "Bottom", bottom)]
  | [top, right, bottom, left] =>
    some [(property ++ "Top", top), (property ++ "Right", right), (property ++ "Bottom", bottom),
      (property ++ "Left", left)]
  | _ => none

/-- A number of seconds or milliseconds. -/
def isTime (token : String) : Bool :=
  let cs := token.toList
  let cs := match cs with
    | '-' :: rest => rest
    | _ => cs
  match cs.getLast? with
  | some 's' =>
    let body := cs.dropLast
    isUnsignedNumeral (if body.getLast? == some 'm' then body.dropLast else body)
  | _ => false

/-- Whether a text is a row of digits, one point anywhere aside. -/
def isCount (token : String) : Bool :=
  let cs := token.toList.erase '.'
  !cs.isEmpty && cs.all Text.isDigitSign

/-- The names of the timing functions of an animation. -/
def timingKeywords : List String :=
  ["ease", "ease-in", "ease-out", "ease-in-out", "linear", "step-start", "step-end"]

/-- The longhand of one token of an animation, given the longhands and the number of times so far. -/
def animationLonghand (seen : List String) (times : Nat) (token : String) : String :=
  let lowered := Text.lower token
  if isTime lowered && times < 2 then
    if times == 0 then "animationDuration" else "animationDelay"
  else if timingKeywords.contains lowered || Text.hasLead "cubic-bezier(" lowered ||
      Text.hasLead "steps(" lowered then "animationTimingFunction"
  else if lowered == "infinite" || isCount lowered then "animationIterationCount"
  else if ["normal", "reverse", "alternate", "alternate-reverse"].contains lowered &&
      !seen.contains "animationDirection" then "animationDirection"
  else if ["none", "forwards", "backwards", "both"].contains lowered &&
      !seen.contains "animationFillMode" then "animationFillMode"
  else if ["running", "paused"].contains lowered then "animationPlayState"
  else "animationName"

/-- The longhands of the tokens of an animation, each used once. -/
def animationFrom (seen : List String) (times : Nat) : List String → Option Expansion
  | [] => some []
  | token :: tokens =>
    let longhand := animationLonghand seen times token
    if seen.contains longhand then none
    else
      let times := if isTime (Text.lower token) && times < 2 then times + 1 else times
      (animationFrom (longhand :: seen) times tokens).map ((longhand, token) :: ·)

/-- The longhands of a single animation. -/
def expandAnimation (value : String) (tokens : List String) : Option Expansion :=
  if tokens.length < 2 || (Css.splitTopLevel value ",").length > 1 then none
  else animationFrom [] 0 tokens

/-- Words that look like colors and are none. -/
def notColors : List String := ["none", "inherit", "initial", "unset", "revert"]

/-- The longhand of a background that is one color. -/
def expandBackground : List String → Option Expansion
  | [token] =>
    if Css.Slot.present token || notColors.contains (Text.lower token) || !isColorToken token then none
    else some [("backgroundColor", token)]
  | _ => none

/-- The longhands of a shorthand, or `none` to keep the declaration as it is written. -/
def expandShorthand (property value : String) : Option Expansion :=
  let tokens := Css.valueTokens value
  if isBorderShorthand property then expandBorder property tokens
  else if property == "margin" || property == "padding" then expandBox property tokens
  else if property == "animation" then expandAnimation value tokens
  else if property == "background" then expandBackground tokens
  else none

end Restyle.Style
