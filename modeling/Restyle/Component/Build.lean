import Restyle.Component.Props
import Restyle.Component.Record
import Restyle.Css.Template
import Restyle.Interpolation.Handlers
import Restyle.Lowering.Pass

/-!
# Building components

A declaration becomes a component: its template is read as a style sheet and converted, and every slot in
it is classified, decided and recorded.  Animations and mixins are built in the same way, but have to
come out as plain styles.
-/

namespace Restyle.Component

open Restyle.Interpolation (Deciding Environment Place Traces)
open Restyle.Module (HelperDeclaration StyledDeclaration TemplateParts)
open Restyle.Style (Object Resolver SlotAnswer SlotRequest)
open Restyle.Tsx (Node)

/-- The component under construction and what the decisions so far have left behind. -/
structure Workshop where
  component : Component
  traces : Traces := {}

/-- Work on the component under construction. -/
abbrev Building := Work Workshop

/-- What building draws on. -/
structure Plant where
  env : Environment
  /-- The names of the module that stand for literal texts. -/
  constants : Table String := []

namespace Building

/-- The component under construction. -/
def component : Building Component := do
  return (← Work.store).component

/-- Changes the component under construction. -/
def change (f : Component → Component) : Building Unit :=
  Work.update fun w => { w with component := f w.component }

/-- Reports on the component under construction. -/
def report (kind : DiagnosticKind) (details : List (String × Data)) : Building Unit := do
  let c ← component
  Work.report { kind, location := c.location, context := ("component", .str c.name) :: details }

/-- Runs a decision and keeps its traces. -/
def deciding {α : Type} (work : Deciding α) : Building α := do
  let (result, traces) := work.run (← Work.store).traces
  Work.update fun w => { w with traces }
  match result with
  | .ok a => return a
  | .error f => throw f

end Building

open Building

/-- Answers a slot of a template. -/
def resolveSlot (plant : Plant) (template : Css.Template Node) (request : SlotRequest) :
    Building SlotAnswer := do
  match template.slot? request.index with
  | none => return .omit
  | some slot =>
    let classified := Interpolation.classify plant.env.around request.index slot.expression
    let c ← component
    let place : Place :=
      { component := c.name, styleKey := c.styleKey, request, location := c.location }
    let decision ← deciding (Interpolation.decide plant.env classified place)
    Work.trace (·.decision c.name classified.index classified.tag.text decision.action)
    let recorded := c.record decision classified place
    change fun _ => recorded.component
    for kind in recorded.reports do
      let property := if request.property.isEmpty then Data.null else .str request.property
      report kind [("property", property), ("expression", .str classified.source)]
    return recorded.reply

/-- The text that the adapter gives for an imported name, if it gives a literal one. -/
def importedText? (plant : Plant) (exported source : String) : Building (Option String) := do
  let query : Adapter.ValueQuery :=
    { kind := .importedValue, path := exported, importSource := some source }
  match ← deciding (Deciding.askValue plant.env query) with
  | .ok (some result) =>
    match Tsx.readExpression result.expr with
    | .ok n => return n.literal?.bind (·.text?)
    | .error _ => return none
  | _ => return none

/--
The text for a slot inside a selector.  Components stay references, which are lowered later; literal
texts, constants and imported texts are put in; anything else is reported and drops the block.
-/
def resolveSelector (plant : Plant) (template : Css.Template Node) (index : Nat) :
    Building (Option String) := do
  match template.slot? index with
  | none => return none
  | some slot =>
    let node := slot.expression.unwrap
    let name? := if node.isIdentifier then some node.text else none
    let binding? := name?.bind plant.env.around.imports.lookup
    let selector := slot.place.selector
    let inAtRule := Text.startsWith ['@'] (Text.trimStart selector.toList)
    let isComponent (name : String) : Bool :=
      plant.env.around.styled.contains name || (binding?.isSome && Text.startsUpper name)
    match name?.filter fun name => !inAtRule && isComponent name with
    | some name => return some ("$\x7b" ++ name ++ "\x7d")
    | none =>
      match (node.literal?.bind (·.text?)).or (name?.bind plant.constants.get?) with
      | some text => return some text
      | none =>
        match binding? with
        | none =>
          report .selectorInterpolatedPseudo [("selector", .str selector)]
          return none
        | some binding =>
          let exported :=
            if binding.imported == "default" || binding.imported == "*" then name?.getD ""
            else binding.imported
          match ← importedText? plant exported binding.source with
          | some text => return some text
          | none =>
            report .selectorImportedValue [("selector", .str selector)]
            return none

/-- Completes the slots of a template. -/
def resolverFor (plant : Plant) (template : Css.Template Node) (location : Option Location) :
    Resolver Workshop where
  slot := resolveSlot plant template
  selector := resolveSelector plant template
  location := location

/-- Reads a template; one that is no style sheet is reported. -/
def readTemplate? (parts : TemplateParts) : Building (Option (Css.Template Node)) := do
  match Css.Template.read parts.segments parts.expressions with
  | .error _ =>
    report .failedToParseExpression []
    return none
  | .ok template => return some template

/-- Converts a template; slots that it loses are reported. -/
def convertTemplate? (plant : Plant) (parts : TemplateParts) : Building (Option Object) := do
  match ← readTemplate? parts with
  | none => return none
  | some template =>
    for index in template.unplaced parts.expressions.length do
      let text := (parts.expressions[index]?.map Node.text).getD ""
      report .unclassifiedInterpolation [("expression", .str text)]
    let c ← component
    let resolver := resolverFor plant template c.location
    let (styles, important) ← Style.withImportant (Style.convert resolver template.root)
    change fun c => { c with important := c.important ++ important }
    for property in important do
      Work.trace (·.inspection (c.name ++ "." ++ property) "stripped" "!important")
    return some styles

/-! ## Attributes and settings of a declaration -/

/-- Reads fixed attributes; those that depend on the props are reported. -/
def readAttributes (node : Node) : Building Unit := do
  let target := node.unwrap
  let shape := target.arrow?
  let body :=
    match shape with
    | some arrow => arrow.body
    | none => some target
  match body.bind Node.entries? with
  | none =>
    let kind : DiagnosticKind := if shape.isSome then .unsupportedArrow else .unsupportedUnknown
    report kind [("expression", .str target.text)]
  | some entries =>
    let param := ((shape.bind (·.param)).getD "")
    for (key, value) in entries do
      if !param.isEmpty && Text.namesValue param value.text then
        report .unsupportedArrow [("expression", .str value.text)]
      else change fun c => { c with staticAttrs := c.staticAttrs.set key value.text }

/-- Reads which props are held back. -/
def readConfig (node : Node) : Building Unit := do
  match (Table.ofList (node.entries?.getD [])).get? "shouldForwardProp" with
  | none => return
  | some test =>
    change fun c => { c with hasForwardTest := true }
    match heldBack? test with
    | none => report .shouldForwardPropTest [("expression", .str test.text)]
    | some names => change fun c => { c with heldBack := names }

/-! ## Declarations -/

/-- Starts a component and returns what the work on it gives. -/
def starting {α : Type} (c : Component) (work : Building α) : Building α := do
  Work.update fun w => { w with component := c }
  work

/-- The component of a declaration; `none` when its template is no style sheet. -/
def build? (plant : Plant) (d : StyledDeclaration) : Building (Option Component) :=
  starting
    { name := d.name, styleKey := Style.styleKey d.name, base := d.base,
      baseIsIntrinsic := d.baseIsIntrinsic, location := some d.location,
      isExported := d.isExported, typeArguments := d.typeArguments } do
    match ← convertTemplate? plant d.template with
    | none => return none
    | some styles =>
      change fun c => { c with styles }.fillVariantDefaults
      d.attrs.forM readAttributes
      d.config.forM readConfig
      change fun c => { c with transientProps := dollarProps d }
      return some (← component)

/-- The component that stands for a helper while it is built. -/
def scratch (d : HelperDeclaration) : Component :=
  { name := d.name, styleKey := Style.styleKey d.name, base := "", location := some d.location }

/-- Whether nothing but styles came out; otherwise the helper is reported. -/
def isPlain : Building Bool := do
  let c ← component
  if c.variants.isEmpty && c.dynamicEntries.isEmpty && c.mixinRefs.isEmpty &&
      c.inlineStyles.isEmpty then
    return true
  else
    report .mixinNotPlainObject []
    return false

/-- The frames of an animation while they are collected. -/
structure Frames where
  /-- How many bodies have been added. -/
  bodies : Nat := 0
  offsets : Table Style.Shared.Entries := []

namespace Frames

/--
Adds a converted body at the offsets that a selector lists.  They share the nested objects of the body, so what
is merged into one of them shows in all frames that share it.
-/
def add (frames : Frames) (selector : String) (body : Object) : Frames where
  bodies := frames.bodies + 1
  offsets :=
    (Css.splitTopLevel selector ",").foldl
      (fun offsets offset =>
        let offset := Text.strip offset
        let frame :=
          Style.Shared.merge ((offsets.get? offset).getD []) (Style.Shared.ofObject frames.bodies body)
        Table.set (offsets.map fun (name, other) => (name, Style.Shared.follow frame other)) offset frame)
      frames.offsets

/-- The frames once all bodies have been added. -/
def toObject (frames : Frames) : Object :=
  frames.offsets.map fun (offset, frame) => (.name offset, .obj (Style.Shared.toObject frame))

end Frames

/-- The frames of an animation. -/
def buildFrames? (plant : Plant) (d : HelperDeclaration) : Building (Option Object) :=
  starting (scratch d) do
    match ← readTemplate? d.template with
    | none => return none
    | some template =>
      let resolver : Resolver Workshop :=
        { resolverFor plant template (some d.location) with selector := fun _ => return none }
      let mut frames : Frames := {}
      for rule in template.root.nested do
        let (body, _) ← Style.withImportant (Style.convert resolver rule)
        frames := frames.add rule.selector body
      if ← isPlain then return some frames.toObject else return none

/-- The styles of a mixin; selectors that no entry can hold are reported and dropped. -/
def buildMixin? (plant : Plant) (d : HelperDeclaration) : Building (Option Object) :=
  starting (scratch d) do
    match ← convertTemplate? plant d.template with
    | none => return none
    | some styles =>
      let selectors := (Lowering.rawSelectors styles).map (·.1)
      for selector in selectors do
        report .complexSelector [("selector", .str selector)]
      if ← isPlain then return some (Lowering.eraseAll styles selectors) else return none

end Restyle.Component
