import Restyle.Adapter.Basic
import Restyle.Interpolation.Classify
import Restyle.Style.Converter

/-!
# Decisions

Every slot gets exactly one decision: it is converted to a value, stands for a style of its own, gives
rise to variants or to a style function, or cannot be compiled.
-/

namespace Restyle.Interpolation

open Restyle.Style (Value Object)

/-- A style that holds under a guard. -/
structure Branch where
  name : String
  guard : String
  styles : Object := []

/-- A value that depends on a prop at run time. -/
structure DynamicValue where
  paramName : String
  paramType : String := "string"
  expression : String := ""
  fallback : Value := .null
  /-- The prop that is passed, when its name differs from that of the parameter. -/
  passedProp : Option String := none
  property : String := ""

/-- The decision for a slot. -/
inductive Decision where
  /-- The slot is a static value. -/
  | convert (value : Value)
  /-- The slot is a reference to another style. -/
  | reference (code : String)
  /-- The slot cannot be compiled; the props it reads and an expression for an inline style. -/
  | bail (reason : DiagnosticKind) (props : List String := []) (inline : Option String := none)
  /-- The slot chooses between static values by a prop. -/
  | variant (prop : String) (comparison base : Value) (branches : List Branch)
  /-- The slot becomes a parameter of a style function. -/
  | dynamic (value : DynamicValue)

/-- The word for the kind of a decision. -/
def Decision.action : Decision → String
  | .convert _ => "convert"
  | .reference _ => "rewrite"
  | .bail _ _ _ => "bail"
  | .variant _ _ _ _ => "variant"
  | .dynamic _ => "dynamic-fn"

/-- Where a slot stands. -/
structure Place where
  component : String
  styleKey : String
  request : Style.SlotRequest
  location : Option Location := none

namespace Place

/-- Whether the slot stands in the place of a declaration. -/
def isBlock (p : Place) : Bool := p.request.property.isEmpty

/-- Whether conditions, a pseudo-element or a selector stand around the slot. -/
def isNested (p : Place) : Bool :=
  !p.request.scope.conditions.isEmpty || p.request.scope.pseudoElement.isSome ||
    p.request.scope.selector != "&"

/-- The property of the slot, if it stands in a declaration. -/
def property? (p : Place) : Option String :=
  if p.isBlock then none else some p.request.property

end Place

/-- What to do with slots that no handler takes. -/
inductive FallbackBehavior where
  /-- Give up, with the props that the expression reads. -/
  | bail
  /-- Give up and drop the slot. -/
  | drop
  deriving DecidableEq, Repr

/--
The reply of a handler that an adapter brings along.  A handler that fails in any other way than by breaking
the contract ends the whole conversion, at whatever point it has reached; that is no reply.
-/
inductive HandlerReply where
  | decline
  | decide (d : Decision)
  /-- The handler broke the contract. -/
  | fault

/-- How slots that no handler takes are decided. -/
inductive Fallback where
  | behavior (b : FallbackBehavior)
  | reply (decide : Classified → Place → Option Decision)

/-- A function that joins styles with those given from outside. -/
structure StyleMerger where
  functionName : String
  importSource : String
  deriving DecidableEq, Repr

/-- What a project brings along. -/
structure ProjectAdapter where
  resolveValue : Adapter.ValueQuery → Data := fun _ => .null
  resolveCall : Adapter.CallQuery → Data := fun _ => .null
  handlers : List (Classified → Place → HandlerReply) := []
  fallback : Option Fallback := none
  styleMerger : Option StyleMerger := none

end Restyle.Interpolation
