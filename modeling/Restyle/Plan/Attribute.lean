import Restyle.Component.Basic
import Restyle.Style.Render
import Restyle.Tsx.Shape
import Restyle.Tsx.Source

/-!
# Attribute tests

A selector for an attribute becomes a test of the props.  If the value of the attribute is fixed, the
test is carried out at once.
-/

namespace Restyle.Plan

open Restyle.Component (AttributeSelector)

/-- The expression that reads a prop. -/
def propAccess (prop : String) (owner : String := "props") : String :=
  if Style.isIdentifier prop then owner ++ "." ++ prop
  else owner ++ "[" ++ Text.quote prop ++ "]"

/-- The text that an expression is a literal for. -/
def fixedText? (code : String) : Option String :=
  match Tsx.readExpression code with
  | .ok n => n.literal?.bind (·.text?)
  | .error _ => none

/-- Whether a fixed value passes the test of a selector. -/
def attributeMatches (s : AttributeSelector) (value : String) : Bool :=
  let expected := s.value.getD ""
  match s.operator with
  | .present => true
  | .equals => value == expected
  | .startsWith => Text.hasLead expected value
  | .endsWith => Text.hasTail expected value
  | .contains => Text.mentions expected value

/-- The test of a selector on the props. -/
def attributeGuard (s : AttributeSelector) : String :=
  let access := propAccess s.attr
  let value := Text.quote (s.value.getD "")
  match s.operator with
  | .present => access ++ " != null && " ++ access ++ " !== false"
  | .equals => access ++ " === " ++ value
  | .startsWith => access ++ "?.startsWith(" ++ value ++ ")"
  | .endsWith => access ++ "?.endsWith(" ++ value ++ ")"
  | .contains => access ++ "?.includes(" ++ value ++ ")"

end Restyle.Plan
