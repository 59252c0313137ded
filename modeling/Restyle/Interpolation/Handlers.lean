import Restyle.Css.Sheet
import Restyle.Interpolation.Decision
import Restyle.Style.Naming
import Restyle.Text.Scan

/-!
# Deciding slots

The handlers for each class of slots, and the order in which they are asked: first those of the adapter,
then the one for the class of the slot, then the fallback.
-/

namespace Restyle.Interpolation

open Restyle.Style (Key Value Object)
open Restyle.Tsx (Node)

/-- What the handlers of one run share. -/
structure Environment where
  adapter : ProjectAdapter := {}
  around : Surroundings := {}
  stylesName : String := "styles"
  /-- The registry keys of mixins. -/
  mixinKeys : Table String := []
  /-- What to do with slots that nobody takes, unless the adapter says so. -/
  fallback : Option FallbackBehavior := none

/-- What deciding leaves behind: requested imports and the questions to the adapter. -/
structure Traces where
  imports : Adapter.ImportSink := {}
  queries : List Adapter.Query := []

/-- Deciding may stop with a fault and leaves traces. -/
abbrev Deciding := ExceptT Fault (StateM Traces)

namespace Deciding

/-- Asks the adapter for a value; a breach of contract is an answer of its own. -/
def askValue (env : Environment) (q : Adapter.ValueQuery) :
    Deciding (Except Adapter.ContractFault (Option Adapter.ValueResult)) := do
  modify fun t => { t with queries := t.queries ++ [.value q] }
  return Adapter.answer Adapter.ValueResult.ofData? (env.adapter.resolveValue q)

/-- Asks the adapter for a call. -/
def askCall (env : Environment) (q : Adapter.CallQuery) :
    Deciding (Except Adapter.ContractFault (Option Adapter.CallResult)) := do
  modify fun t => { t with queries := t.queries ++ [.call q] }
  return Adapter.answer Adapter.CallResult.ofData? (env.adapter.resolveCall q)

/-- Requests imports. -/
def request (specs : List Adapter.ImportSpec) : Deciding Unit :=
  modify fun t => { t with imports := t.imports.extend specs }

/-- Converts a slot to an expression and requests the imports it needs. -/
def convertTo (expr : String) (specs : List Adapter.ImportSpec) : Deciding Decision := do
  request specs
  return .convert (.js expr)

end Deciding

/-! ## Static branches -/

/--
Puts the conditions and the pseudo-element around a slot around styles; fails where two conditions would
stand inside each other.
-/
def scopeStyles? (styles : Object) (place : Place) : Option Object := do
  let scope := place.request.scope
  let out ← match scope.conditions with
    | [] => some styles
    | [condition] =>
      styles.mapM fun (prop, value) =>
        if value.isObject then none
        else some (prop, .obj (Object.set [(Key.default, .null)] (.name condition) value))
    | _ => none
  match scope.pseudoElement with
  | some element => if element.isEmpty then some out else some [(.name element, .obj out)]
  | none => some out

/-- The styles of a block without slots, or why it has none. -/
def blockStyles (css : String) : Except Fault (Except DiagnosticKind Object) :=
  match Css.parseSheet css with
  | .error _ => .ok (.error .cssBlockParse)
  | .ok rule =>
    if rule.walk.any fun r => Css.isAtRule r.selector then .ok (.error .cssBlockAtRule)
    else
      let work : Work Unit Object := Style.convert Style.Resolver.none rule
      let (result, session) := work.run { store := () }
      match result with
      | .error f => .error f
      | .ok styles =>
        .ok (if !session.important.isEmpty then .error .cssBlockImportant
          else if !session.diagnostics.items.isEmpty then .error .cssBlockSelector
          else if styles.any fun (_, v) => v.isObject && !v.isConditional then
            .error .cssBlockSelector
          else .ok styles)

/-- Whether a branch gives no value. -/
def isEmptyBranch : Value → Bool
  | .null | .bool false | .text "" => true
  | _ => false

/-- The text of a literal in a declaration. -/
def literalText : Value → String
  | .int n => toString n
  | .float x => Style.renderDouble x
  | v => Style.spelled v

/-- The styles of one branch, or why it has none. -/
def branchStyles (value : Value) (place : Place) : Except Fault (Except DiagnosticKind Object) := do
  let inScope (styles : Object) : Except DiagnosticKind Object :=
    match scopeStyles? styles place with
    | some out => .ok out
    | none => .error .cssBlockSelector
  if isEmptyBranch value then return .ok []
  match value with
  | .block css =>
    if place.isBlock then return (← blockStyles css).bind inScope
    else return .error .arrowConditionalBranches
  | _ =>
    if place.isBlock then return .error .cssBlockMissingProperty
    else
      let r := place.request
      let text :=
        if r.isFullValue then literalText value
        else Css.Slot.fill r.value r.index (literalText value)
      return inScope [(.name r.property, Style.normalizeValue r.property text)]

/-! ## Props that an expression reads -/

/-- A prop that is read from a value of the given name. -/
def propOf? (name : String) (last : Option Char) (cs : List Char) : Option (String × List Char) := do
  if last.any fun c => Text.isPropChar c || c == '.' then none
  let rest ← Text.after? name.toList cs
  let rest := (Text.after? ['?'] rest).getD rest
  let rest ← Text.after? ['.'] rest
  let (dollar, rest) := match rest with
    | '$' :: more => (['$'], more)
    | _ => ([], rest)
  match rest with
  | c :: more =>
    if Text.isAsciiLetter c || c == '_' then
      let tail := more.takeWhile Text.isPropChar
      some (String.ofList (dollar ++ c :: tail), more.drop tail.length)
    else none
  | [] => none

/-- The text after the first arrow. -/
def afterArrow (source : String) : String :=
  match Text.cut? ['=', '>'] source.toList with
  | some (_, rest) => String.ofList rest
  | none => source

/-- The props that a text seems to read. -/
def propsRead (source : String) (param : Option String) (destructured : List String) : List String :=
  let names := match param.filter fun p => !p.isEmpty with
    | some p => [p]
    | none => if destructured.isEmpty then ["props", "p"] else []
  let found := names.flatMap (fun name => Text.collect (propOf? name) source.toList) ++
    destructured.filter fun name => Text.namesValue name (afterArrow source)
  Text.firstOccurrences (found.filter (· != "theme"))

/-- An access to a member of a value of the given name, up to the dot. -/
def accessOf? (name : String) (last : Option Char) (cs : List Char) : Option (Unit × List Char) := do
  if last.any fun c => Text.isPropChar c || c == '.' then none
  let rest ← Text.after? name.toList cs
  let rest := (Text.after? ['?'] rest).getD rest
  let rest ← Text.after? ['.'] rest
  return ((), rest)

/-- The body of a function, written in terms of the props alone. -/
def inlineExpression? (n : Node) : Option String := do
  let f ← n.arrow?
  let body ← f.body
  if Text.hasWord "theme" body.text then none
  match f.param.filter fun p => !p.isEmpty with
  | some param =>
    let text := String.ofList (Text.removeAll (accessOf? param) body.text.toList)
    if Text.namesValue param text then none else some text
  | none => some body.text

/-! ## Handlers -/

/-- Units that a parameter may have after it. -/
def units : List String :=
  ["px", "rem", "em", "%", "vh", "vw", "vmin", "vmax", "ms", "s", "deg", "ch", "ex", "fr"]

/-- Whether a value is a slot, maybe with a sign and a unit. -/
def isMeasure (text : String) : Bool :=
  let cs := (Text.after? ['-'] text.toList).getD text.toList
  match Css.Slot.read? cs with
  | some (_, _, rest) => rest.isEmpty || units.contains (String.ofList rest)
  | none => false

/-- A theme path is converted if the adapter knows it. -/
def decideTheme (env : Environment) (c : Classified) (place : Place) : Deciding Decision := do
  let query := { kind := .theme, path := ".".intercalate c.path, property := place.property? }
  match ← Deciding.askValue env query with
  | .error _ => return .bail .adapterValueUnparseable
  | .ok none => return .bail .arrowThemePath
  | .ok (some result) =>
    if Tsx.isExpression result.expr then Deciding.convertTo result.expr result.imports
    else return .bail .adapterValueUnparseable

/-- A value with an expression in the place of a slot, as a template literal. -/
def slotTemplate (text : String) (index : Nat) (expression : String) : String :=
  "\x60" ++
    Css.Slot.fill (Style.escapeBackticks text) index (Style.templateSlot expression) ++ "\x60"

/-- A prop becomes a parameter of a style function. -/
def decideProp (c : Classified) (place : Place) : Decision :=
  let r := place.request
  let prop := c.path.head?.getD ""
  if place.isBlock then .bail .arrowUnrecognizedBody [prop]
  else if r.scope.pseudoElement.any fun e => !e.isEmpty then .bail .pseudoElementDynamic [prop]
  else
    let property := Style.borderTarget r.property r.tokens r.tokenIndex
    let text := if property != r.property then r.token else r.value
    if Css.Slot.others text r.index then .bail .cssBlockMultipleSlots [prop]
    else
      let bare := Text.dropLeading '$' prop
      let param := if bare.isEmpty then prop else bare
      let trimmed := Text.strip text
      let (expression, isNumber) :=
        if trimmed == Css.Slot.markText r.index then (param, Style.isUnitless property)
        else
          (slotTemplate trimmed r.index param, isMeasure trimmed)
      .dynamic {
        paramName := param
        paramType := if isNumber then "number" else "string"
        expression
        passedProp := if prop != param then some prop else none
        property }

/-- The names and guards of the two branches of a test. -/
def branchNames (c : Classified) (styleKey : String) : (String × String) × (String × String) :=
  let prop := c.path.head?.getD ""
  let label := Style.propSuffix prop
  match c.comparison with
  | some (op, value) =>
    let equal := (styleKey ++ label ++ Style.literalSuffix value,
      prop ++ " === " ++ Style.literalCode value)
    let different := (styleKey ++ label ++ "Not" ++ Style.literalSuffix value,
      prop ++ " !== " ++ Style.literalCode value)
    if op == "===" || op == "==" then (equal, different) else (different, equal)
  | none =>
    let positive := (styleKey ++ label, prop)
    let negative := (styleKey ++ "Not" ++ label, "!" ++ prop)
    if c.negated then (negative, positive) else (positive, negative)

/-- The branches with styles, or why one has none. -/
def branchesOf (place : Place) :
    List ((String × String) × Value) → Except Fault (Except DiagnosticKind (List Branch))
  | [] => .ok (.ok [])
  | ((name, guard), value) :: rest => do
    match ← branchStyles value place with
    | .error problem => return .error problem
    | .ok styles =>
      return (← branchesOf place rest).map fun more =>
        if styles.isEmpty then more else { name := name, guard := guard, styles := styles } :: more

/-- A test of a prop becomes variants. -/
def decideConditional (c : Classified) (place : Place) : Except Fault Decision := do
  let r := place.request
  let deps := (c.path.take 1).filter (· != "theme")
  if c.isThemePath then
    return .bail (if place.isBlock then .themeBlockConditional else .arrowConditionalBranches)
  else if r.scope.pseudoElement.any fun e => !e.isEmpty then return .bail .pseudoElementDynamic deps
  else if !place.isBlock && Css.Slot.others r.value r.index then
    return .bail .cssBlockMultipleSlots deps
  else
    let (whenTrue, whenFalse) := branchNames c place.styleKey
    let branches := (whenTrue, c.truthy) :: (if c.hasFalsyBranch then [(whenFalse, c.falsy)] else [])
    match ← branchesOf place branches with
    | .error problem => return .bail problem deps
    | .ok variants =>
      return .variant (c.path.head?.getD "") ((c.comparison.map (·.2)).getD .null) .null variants

/-- A theme path with a fallback is converted if the adapter knows it. -/
def decideLogical (env : Environment) (c : Classified) (place : Place) : Deciding Decision := do
  if c.isThemePath && 1 < c.path.length && !place.isBlock then
    let query := {
      kind := .theme
      path := ".".intercalate (c.path.drop 1)
      property := place.property?
      defaultValue := if c.fallback.isNull then none else some (Style.spelled c.fallback) }
    match ← Deciding.askValue env query with
    | .ok (some result) =>
      if Tsx.isExpression result.expr then Deciding.convertTo result.expr result.imports
      else return .bail .arrowLogical
    | _ => return .bail .arrowLogical
  else
    return .bail .arrowLogical ((c.path.take 1).filter (· != "theme")) (c.node.bind inlineExpression?)

/-- A resolved call in the place of a declaration. -/
def decideBlockCall (place : Place) (result : Adapter.CallResult) : Deciding Decision := do
  let scope := place.request.scope
  if result.usage != .props then return .bail .adapterCallContract
  else if place.isNested then
    if scope.pseudoElement.any (fun e => !e.isEmpty) || scope.conditions.isEmpty ||
        scope.selector != "&" then
      return .bail .adapterStylesUnderSelector
    else
      match result.cssText.filter fun t => !t.isEmpty with
      | none => return .bail .adapterStylesPseudoNoCssText
      | some css =>
        match ← blockStyles css with
        | .error problem => return .bail problem
        | .ok styles =>
          match scopeStyles? styles place with
          | none => return .bail .adapterStylesUnderSelector
          | some out =>
            Deciding.request result.imports
            return .convert (.obj out)
  else if !Tsx.isExpression result.expr then return .bail .adapterCallUnparseableStyles
  else
    Deciding.request result.imports
    return .reference result.expr

/-- A resolved call in a declaration. -/
def decideValueCall (place : Place) (result : Adapter.CallResult) : Deciding Decision := do
  let r := place.request
  if result.usage != .create then return .bail .adapterCallContract
  else if !Tsx.isExpression result.expr then return .bail .adapterCallUnparseableValue
  else if Text.hasLead "border" r.property && !r.isFullValue && r.tokens.length < 2 then
    return .bail .adapterBorderHelper
  else Deciding.convertTo result.expr result.imports

/-- Mixins become references; calls of imported functions are left to the adapter. -/
def decideHelper (env : Environment) (c : Classified) (place : Place) : Deciding Decision := do
  match c.mixinName.filter fun n => !n.isEmpty with
  | some name =>
    if !place.isBlock then return .bail .unsupportedIdentifier
    else if place.isNested then return .bail .importedMixinPseudo
    else return .reference (env.stylesName ++ "." ++ (env.mixinKeys.get? name).getD name)
  | none =>
    match c.importSource.filter fun s => !s.isEmpty with
    | none => return .bail .helperImportSource
    | some source =>
      let named (n : Option String) : Option String := n.filter fun s => !s.isEmpty
      let query := {
        callee := ((named c.importedName).or (named c.helperName)).getD ""
        source
        arguments := c.arguments
        property := place.property? }
      match ← Deciding.askCall env query with
      | .error _ => return .bail .adapterCallContract
      | .ok none => return .bail .unsupportedCallExpression
      | .ok (some result) =>
        if place.isBlock then decideBlockCall place result else decideValueCall place result

/-- Names and chains of accesses: imported values are left to the adapter, constants are used. -/
def decideName? (env : Environment) (c : Classified) (place : Place) : Deciding (Option Decision) := do
  if place.isBlock then return none
  match c.node.bind Node.path? with
  | none | some [] => return none
  | some (name :: rest) =>
    if env.around.styled.contains name then return some (.bail .componentAsMixin)
    match env.around.imports.lookup name with
    | none =>
      return some (if rest.isEmpty then .convert (.js name) else .bail .unsupportedMember)
    | some binding =>
      let exported :=
        if binding.imported == "default" || binding.imported == "*" then name else binding.imported
      let query := {
        kind := .importedValue
        path := ".".intercalate (exported :: rest)
        property := place.property?
        importSource := some binding.source }
      match ← Deciding.askValue env query with
      | .error _ => return some (.bail .adapterValueUnparseable)
      | .ok none => return some (.bail .adapterValueUndefinedImport)
      | .ok (some result) =>
        if Tsx.isExpression result.expr then
          return some (← Deciding.convertTo result.expr result.imports)
        else return some (.bail .adapterValueUnparseable)

/-! ## Slots that nobody takes -/

/-- The reason for a function that is not understood. -/
def arrowReason (f : Tsx.Arrow) : DiagnosticKind :=
  match f.body with
  | none => .arrowUnrecognizedBody
  | some body =>
    let hasTheme := Text.hasWord "theme" body.text
    match body.kind with
    | .ternary => .arrowConditionalBranches
    | .call => .arrowHelperCallBody
    | .binary =>
      if (body.child? .operator).any fun op => ["&&", "||", "??"].contains op.text then .arrowLogical
      else .arrowUnrecognizedBody
    | .subscript => if hasTheme then .arrowIndexedTheme else .arrowUnrecognizedBody
    | .member => if hasTheme then .arrowThemePath else .unsupportedMember
    | _ => .arrowUnrecognizedBody

/-- The most specific reason for giving up on a slot. -/
def rawReason (c : Classified) : DiagnosticKind :=
  match c.node.map Node.unwrap with
  | none => .unclassifiedInterpolation
  | some n =>
    match n.arrow?, n.call? with
    | some f, _ => arrowReason f
    | none, some (callee, _) =>
      if [.identifier, .member, .call].contains callee.unwrap.kind then .unsupportedCall
      else .unsupportedCallee
    | none, none =>
      match n.kind with
      | .identifier => .unsupportedIdentifier
      | .member | .subscript => .unsupportedMember
      | .functionExpression => .unsupportedArrow
      | .call => .unsupportedCallExpression
      | _ => .unsupportedUnknown

/-- Gives up on a slot, with the props that it reads if they are wanted. -/
def giveUp (c : Classified) (withProps : Bool) : Decision :=
  if withProps then
    let f := c.node.bind Node.arrow?
    let deps := propsRead c.source (f.bind (·.param)) ((f.map (·.destructured)).getD [])
    .bail (rawReason c) deps (if deps.isEmpty then none else c.node.bind inlineExpression?)
  else .bail (rawReason c)

/-- The decision of the handler for the class of a slot. -/
def decideByTag (env : Environment) (c : Classified) (place : Place) :
    Deciding (Option Decision) := do
  match c.tag with
  | .themeAccess => return some (← decideTheme env c place)
  | .propAccess => return some (decideProp c place)
  | .conditional => return some (← decideConditional c place)
  | .logical => return some (← decideLogical env c place)
  | .keyframesRef =>
    return some (if place.isBlock then .bail .unsupportedIdentifier
      else .convert (.js (c.keyframesName.getD "")))
  | .helperCall => return some (← decideHelper env c place)
  | .raw => decideName? env c place

/-- The decision of the first handler of the adapter that takes a slot. -/
def decideByAdapter (env : Environment) (c : Classified) (place : Place) : Option Decision :=
  env.adapter.handlers.findSome? fun handler =>
    match handler c place with
    | .decline => none
    | .decide d => some d
    | .fault => some (.bail .adapterCallContract)

/-- The decision for a slot that no handler takes. -/
def decideFallback (env : Environment) (c : Classified) (place : Place) : Decision :=
  match env.adapter.fallback.getD (.behavior (env.fallback.getD .bail)) with
  | .behavior b => giveUp c (b == .bail)
  | .reply decide => (decide c place).getD (giveUp c true)

/-- The decision for a slot. -/
def decide (env : Environment) (c : Classified) (place : Place) : Deciding Decision := do
  match decideByAdapter env c place with
  | some d => return d
  | none => return (← decideByTag env c place).getD (decideFallback env c place)

end Restyle.Interpolation
