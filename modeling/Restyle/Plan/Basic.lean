import Restyle.Component.Basic

/-!
# Plans

A plan says how a component is rendered after the conversion: in place, as its element with the styles
spread into it, or as a function component that takes the place of the declaration.
-/

namespace Restyle

/-- Where a component ends up. -/
inductive RenderMode where
  /-- Its usages become the element. -/
  | inline
  /-- It stays a component. -/
  | component
  deriving DecidableEq, Repr

/-- The word for a mode. -/
def RenderMode.text : RenderMode → String
  | .inline => "inline"
  | .component => "component"

/-- A style that an element is given, under a guard if there is one. -/
structure StyleArg where
  expression : String
  guard : Option String := none
  deriving DecidableEq, Repr

/-- The argument as it is passed. -/
def StyleArg.text (a : StyleArg) : String :=
  match a.guard.filter fun g => !g.isEmpty with
  | some guard => guard ++ " && " ++ a.expression
  | none => a.expression

/-- How a component is rendered. -/
structure ComponentPlan where
  component : Component
  mode : RenderMode
  element : String
  elementIsIntrinsic : Bool
  /-- Its styles in order. -/
  styleArgs : List StyleArg := []
  /-- The props that are not passed on. -/
  takenProps : List String := []
  staticAttrs : Table String := []
  /-- Styles for other elements at the usages. -/
  elementRules : List Component.ElementRule := []
  /-- Whether styles from outside are merged in. -/
  acceptsStyles : Bool := true
  /-- Whether `as` is left to the component underneath. -/
  forwardsAs : Bool := false

namespace ComponentPlan

/-- The name of the component. -/
def name (p : ComponentPlan) : String := p.component.name

/-- Whether the component itself renders what `as` names. -/
def isPolymorphic (p : ComponentPlan) : Bool :=
  p.component.supportsAs && !p.forwardsAs

/-- Whether the usages become the element. -/
def isInline (p : ComponentPlan) : Bool := p.mode == .inline

/-- The styles without a guard. -/
def plainArgs (p : ComponentPlan) : List String :=
  (p.styleArgs.filter fun a => a.guard.isNone).map (·.expression)

end ComponentPlan

end Restyle
