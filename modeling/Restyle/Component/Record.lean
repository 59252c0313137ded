import Restyle.Component.Basic
import Restyle.Css.Slot
import Restyle.Style.Merge

/-!
# Recording decisions

A decision on a slot changes the component it belongs to and tells what to put into the place of the
slot.  What there is to report comes out as well, in order.
-/

namespace Restyle.Component

open Restyle.Interpolation (Branch Classified Decision DynamicValue Place)
open Restyle.Style (Key Object SlotAnswer Value)

/-- A component after a decision, the answer for the slot, and the reports. -/
structure Recorded where
  component : Component
  reply : SlotAnswer := .omit
  reports : List DiagnosticKind := []

/-- Adds a variant; one that is there already takes the new styles over its own. -/
def addBranch : List Branch → Branch → List Branch
  | [], b => [b]
  | known :: rest, b =>
    if known.name = b.name then { known with styles := known.styles.merge b.styles } :: rest
    else known :: addBranch rest b

/-- The style function for a value that is passed at run time. -/
def dynamicEntry (c : Component) (v : DynamicValue) (place : Place) : DynamicEntry :=
  let propName :=
    match v.passedProp with
    | some p => if p.isEmpty then v.paramName else p
    | none => v.paramName
  { key := c.styleKey ++ Text.upperFirst v.paramName
    paramName := v.paramName
    paramType := v.paramType
    property := if v.property.isEmpty then place.request.property else v.property
    expression := v.expression
    propName
    conditions := place.request.scope.conditions
    pseudoElement := place.request.scope.pseudoElement
    fallback := v.fallback }

/-- The text of a value around a slot as the inside of a template literal. -/
def templateAround (text : String) (index : Nat) (expression : String) : String :=
  let escaped := Text.replace "\x60" "\\\x60" (Text.replace "\\" "\\\\" text)
  "\x60" ++ Text.replace (Css.Slot.markText index) ("$\x7b" ++ expression ++ "\x7d") escaped ++ "\x60"

/--
A slot that cannot be compiled is reported.  If it reads props and stands in a plain declaration, it is
set through the `style` prop instead, provided that there is an expression for it.
-/
def recordBail (c : Component) (reason : DiagnosticKind) (props : List String)
    (inline : Option String) (classified : Classified) (place : Place) : Recorded :=
  if props.isEmpty || place.isBlock || place.isNested then { component := c, reports := [reason] }
  else
    match inline with
    | none =>
      let kind : DiagnosticKind :=
        if Text.mentions "theme" classified.source then .inlineStyleTheme else .inlineStyleUnsafe
      { component := c, reports := [reason, kind] }
    | some expression =>
      let r := place.request
      let text := Text.strip r.value
      if !r.isFullValue && (Css.Slot.indices text).any (· != r.index) then
        { component := c, reports := [reason, .inlineStyleUnsafe] }
      else
        let expression :=
          if r.isFullValue then expression else templateAround text r.index expression
        let inlineStyles := c.inlineStyles ++ [{ property := r.property, expression, props }]
        { component := { c with inlineStyles }.addPropDependencies props, reports := [reason] }

/-- Records a decision. -/
def record (c : Component) (d : Decision) (classified : Classified) (place : Place) : Recorded :=
  match d with
  | .convert value =>
    if place.isBlock then
      match value with
      | .obj styles => { component := c, reply := .given .null none styles }
      | _ => { component := c, reports := [.cssBlockMissingProperty] }
    else { component := c, reply := .given value }
  | .reference code =>
    if c.mixinRefs.contains code then { component := c }
    else { component := { c with mixinRefs := c.mixinRefs ++ [code] } }
  | .variant prop _ base branches =>
    let component :=
      { c with variants := branches.foldl addBranch c.variants }.addPropDependencies [prop]
    { component, reply := if base.isNull then .omit else .given base }
  | .dynamic v =>
    let entry := dynamicEntry c v place
    let dynamicEntries := c.dynamicEntries ++ [entry]
    { component := { c with dynamicEntries }.addPropDependencies [entry.propName] }
  | .bail reason props inline => recordBail c reason props inline classified place

/-! ## Defaults of variants -/

/-- Gives a conditional value without a default the value that the base styles have. -/
def withBaseDefault (base : Object) (key : Key) : Value → Value
  | .obj o =>
    if Object.isConditional o && ((Object.get? o Key.default).getD .null).isNull then
      let known :=
        match Object.get? base key with
        | some (.obj b) =>
          if Object.isConditional b then (Object.get? b Key.default).getD .null else .obj b
        | some v => v
        | none => .null
      if known.isNull || known.isObject then .obj o else .obj (Object.set o Key.default known)
    else .obj o
  | v => v

/--
Gives the conditional values of variants the base value as their default; applied after the base, they
would reset the property outside of their conditions otherwise.
-/
def fillVariantDefaults (c : Component) : Component :=
  { c with
    variants := c.variants.map fun b =>
      { b with styles := b.styles.map fun (key, v) => (key, withBaseDefault c.styles key v) } }

end Restyle.Component
