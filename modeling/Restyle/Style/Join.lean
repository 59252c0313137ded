import Restyle.Style.Render

/-!
# Joining static text and expressions

The pieces of a value, some literal and some expressions, become one value: a text when all pieces are
static, the expression itself when it stands alone, and a template literal otherwise.
-/

namespace Restyle.Style

/-- Whether a value is the empty text. -/
def isEmptyText : Value → Bool
  | .text s => s.isEmpty
  | _ => false

/-- Whether a value is an expression. -/
def isExpression : Value → Bool
  | .js _ => true
  | _ => false

/-- Escapes backslashes and backticks for the inside of a template literal. -/
def escapeBackticks (s : String) : String :=
  Text.replace "\x60" "\\\x60" (Text.replace "\\" "\\\\" s)

/-- A literal piece as it stands inside a template literal. -/
def templateText (s : String) : String :=
  Text.replace "$\x7b" "\\$\x7b" (escapeBackticks s)

/-- An expression as it stands inside a template literal. -/
def templateSlot (code : String) : String :=
  "$\x7b" ++ code ++ "\x7d"

/-- One piece of a template literal. -/
def templatePiece : Value → String
  | .js code => templateSlot code
  | v => templateText (spelled v)

/-- The value that a row of pieces makes up. -/
def joinParts (parts : List Value) : Value :=
  match parts.filter fun p => !isEmptyText p with
  | [] => .text ""
  | [part] => part
  | parts =>
    if parts.all fun p => !isExpression p then .text (String.join (parts.map spelled))
    else .js ("\x60" ++ String.join (parts.map templatePiece) ++ "\x60")

end Restyle.Style
