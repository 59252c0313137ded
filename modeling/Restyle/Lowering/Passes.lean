import Restyle.Lowering.Pass
import Restyle.Style.Join
import Restyle.Style.Merge
import Restyle.Style.Naming
import Restyle.Style.Property

/-!
# The passes

Six passes, in the order in which they run: styles for children, for components inside, for attributes,
after siblings, with raised weight, and for components inside others in a pseudo state.
-/

namespace Restyle.Lowering

open Restyle.Style (Key Value Object)
open Restyle.Component (TargetKind AttributeOperator AttributeSelector SiblingRelation)

/-! ## Children -/

/-- Which children a selector means, and the end of the key for it. -/
def childTarget? (text : String) : Option (TargetKind × String) := do
  let cs := match text.toList with
    | '>' :: rest => Text.trimStart rest
    | cs => cs
  let refinement ← Text.after? ['*'] cs
  match String.ofList refinement with
  | "" => some (.directChildren, "Child")
  | ":not(:first-child)" => some (.directChildrenExceptFirst, "ChildNotFirst")
  | ":not(:last-child)" => some (.directChildrenExceptLast, "ChildNotLast")
  | ":first-child" => some (.directChildrenFirst, "ChildFirst")
  | _ => none

/-- `> *` and its refinements become rules for the children of usages. -/
def universal : Pass where
  name := "universal"
  lower? _ _ c selector body := do
    let (kind, ending) ← childTarget? (stripSelf selector)
    let key := c.styleKey ++ ending
    let c := c.addExtra key body
    return { component := { c with elementRules := c.elementRules ++ [{ kind, styleKey := key }] } }

/-! ## Components inside -/

/-- A component inside: the pseudo state of the parent, the component, and its own pseudo state. -/
def descendant? (text : String) : Option (Option String × String × Option String) := do
  let (ancestor, cs) ←
    match text.toList with
    | '&' :: rest => do
      let (pseudo, rest) ← pseudo? rest
      let rest ← blanks? rest
      some (some pseudo, rest)
    | cs => some (none, cs)
  let (name, rest) ← componentRef? cs
  if rest.isEmpty then some (ancestor, name, none)
  else
    match pseudo? rest with
    | some (own, []) => some (ancestor, name, some own)
    | _ => none

/-- The entries for a component inside; values that are bodies of their own are reported. -/
def overrideEntries (condition : Option Key) (childStyles : Object) (selector : String) :
    Object → Lowered → Object → Lowered × Object
  | [], l, out => (l, out)
  | (key, value) :: rest, l, out =>
    match condition with
    | none => overrideEntries condition childStyles selector rest l (Object.set out key value)
    | some condition' =>
      if key.isPseudoElement then
        overrideEntries condition childStyles selector rest l (Object.set out key value)
      else if value.isObject then
        overrideEntries condition childStyles selector rest (l.report .complexSelector selector) out
      else
        let entry :=
          Object.set [(Key.default, baseValue childStyles key)] condition' value
        overrideEntries condition childStyles selector rest l (Object.set out key (.obj entry))

/-- The condition under which styles for a component inside hold. -/
def insideCondition : Option String → Option String → Option Key
  | some a, _ => some (Key.ancestor a)
  | none, some o => some (Key.name o)
  | none, none => none

/-- Styles for a component inside become an entry that usages hand to it. -/
def descendant : Pass where
  name := "descendant"
  lower? settings arena c selector body := do
    let (ancestor, target, own) ← descendant? (stripSelf selector)
    let child := arena.get? target
    let crossFile := child.isNone && settings.importedComponents.contains target
    if child.isNone && !crossFile then none
    let start : Lowered := { component := c }
    if ancestor.isSome && own.isSome then return start.report .complexSelector selector
    let condition := insideCondition ancestor own
    let childStyles := (child.map (·.styles)).getD []
    let (lowered, entries) := overrideEntries condition childStyles selector body start []
    if entries.isEmpty then return lowered
    let key := Style.styleKey target ++ "In" ++ Text.upperFirst c.name
    let c := c.addExtra key entries
    return { lowered with component := { c with
      needsDefaultMarker := c.needsDefaultMarker || ancestor.isSome
      overrides := c.overrides ++ [{
        parentKey := c.styleKey
        childKey := child.map (·.styleKey)
        overrideKey := key
        crossFile
        importedName := if crossFile then some target else none }]
      elementRules := c.elementRules ++
        [{ kind := .descendantComponent, styleKey := key, target := some target }] } }

/-! ## Attributes -/

/-- A selector for an attribute of the component itself. -/
structure AttributeTest where
  attr : String
  operator : AttributeOperator := .present
  value : Option String := none
  element : Option String := none

/-- What may follow the bracket of an attribute selector. -/
def attributeEnd? (cs : List Char) : Option (Option String) := do
  let rest ← Text.after? [']'] (Text.trimStart cs)
  match String.ofList rest with
  | "" => some none
  | "::before" => some (some "::before")
  | "::after" => some (some "::after")
  | _ => none

/-- A value in quotes, with its quotes. -/
def quotedValue? (cs : List Char) : Option (String × List Char) :=
  match cs with
  | q :: rest =>
    if q == '"' || q == '\'' then
      let body := rest.takeWhile (· != q)
      match rest.drop body.length with
      | _ :: after => some (String.ofList (q :: body ++ [q]), after)
      | [] => none
    else none
  | [] => none

/-- A value without blanks and brackets. -/
def bareValue? (cs : List Char) : Option (String × List Char) :=
  (run? (fun c => c != ']' && !Text.isBlank c) cs).map fun (v, rest) => (String.ofList v, rest)

/-- The value of an attribute and what follows the selector. -/
def attributeValue? (cs : List Char) : Option (String × Option String) :=
  let finish (read : Option (String × List Char)) : Option (String × Option String) := do
    let (value, rest) ← read
    let element ← attributeEnd? rest
    return (value, element)
  (finish (quotedValue? cs)).or (finish (bareValue? cs))

/-- The sign of a comparison. -/
def attributeOperator? (cs : List Char) : Option (AttributeOperator × List Char) :=
  match cs with
  | '=' :: rest => some (.equals, rest)
  | '^' :: '=' :: rest => some (.startsWith, rest)
  | '$' :: '=' :: rest => some (.endsWith, rest)
  | '*' :: '=' :: rest => some (.contains, rest)
  | _ => none

/-- A value without the quotes around it. -/
def unquoted (value : String) : String :=
  let cs := value.toList
  match cs.head?, cs.getLast? with
  | some a, some b => if (a == '"' || a == '\'') && a == b then Text.inner value else value
  | _, _ => value

/-- An attribute selector. -/
def attributeTest? (text : String) : Option AttributeTest := do
  let rest ← Text.after? ['&', '['] text.toList
  match Text.trimStart rest with
  | [] => none
  | c :: more =>
    if !Text.isAsciiLetter c then none
    let tail := more.takeWhile isSelectorChar
    let attr := String.ofList (c :: tail)
    let rest := Text.trimStart (more.drop tail.length)
    match attributeOperator? rest with
    | some (operator, rest) =>
      let (value, element) ← attributeValue? (Text.trimStart rest)
      return { attr, operator, value := some (unquoted value), element }
    | none =>
      let element ← attributeEnd? rest
      return { attr := attr, element := element }

/-- The end of the key for an attribute; some tests have names of their own. -/
def attributeSuffix (attr : String) (value : Option String) : String :=
  match attr, value with
  | "target", some "_blank" => "External"
  | "href", some "https" => "Https"
  | "href", some ".pdf" => "Pdf"
  | _, some v =>
    let label := Style.camelize v
    if v.isEmpty || label.isEmpty then Style.camelize attr else label
  | _, none => Style.camelize attr

/-- Attribute selectors become entries that a test of the props guards. -/
def attributes : Pass where
  name := "attributes"
  lower? _ _ c selector body := do
    let t ← attributeTest? (Text.strip selector)
    let key := c.styleKey ++ attributeSuffix t.attr t.value
    let c := c.addExtra key (match t.element with
      | some element => [(.name element, .obj body)]
      | none => body)
    return { component := { c with attributeSelectors := c.attributeSelectors ++ [{
      styleKey := key
      attr := t.attr
      operator := t.operator
      value := t.value
      pseudoElement := t.element }] } }

/-! ## Siblings -/

/-- A selector for the component after itself: the class of the earlier one, and the relation. -/
def sibling? (text : String) : Option (Option String × SiblingRelation) := do
  let rest ← Text.after? ['&'] text.toList
  let (className, rest) ←
    match rest with
    | '.' :: more => (run? isSelectorChar more).map fun (n, r) => (some (String.ofList n), r)
    | _ => some (none, rest)
  match Text.trimStart rest with
  | op :: more =>
    if Text.trimStart more != ['&'] then none
    else if op == '+' then some (className, .adjacent)
    else if op == '~' then some (className, .general)
    else none
  | [] => none

/-- The pseudo state that every sibling is in. -/
def anySibling : String := ":is(*)"

/-- An entry that holds while a flag is passed. -/
def addSiblingEntry (c : Component) (body : Object) (relation : SiblingRelation) (ending : String)
    (className : Option String) : Component :=
  let key := c.styleKey ++ ending
  let c := c.addExtra key body
  { c with siblingSelectors := c.siblingSelectors ++
      [{ styleKey := key, relation, propName := "is" ++ ending, className }] }

/-- Values that hold after a marked sibling. -/
def addMarkerValues (selector : String) : Object → Lowered → Lowered
  | [], l => { l with component := { l.component with needsDefaultMarker := true } }
  | (key, value) :: rest, l =>
    if key.isPseudoElement || value.isObject then
      addMarkerValues selector rest (l.report .complexSelector selector)
    else
      let condition := Key.siblingBefore anySibling
      let existing := Object.get? l.component.styles key
      let entry := match existing with
        | some (.obj o) =>
          if Object.isConditional o then Object.set o condition value
          else Object.set [(Key.default, .obj o)] condition value
        | other => Object.set [(Key.default, other.getD .null)] condition value
      addMarkerValues selector rest { l with component := l.component.setStyle key (.obj entry) }

/-- Styles after a sibling become entries behind flags, or values behind a marker. -/
def siblings : Pass where
  name := "siblings"
  lower? settings _ c selector body := do
    let (className, relation) ← sibling? (Text.strip selector)
    let start : Lowered := { component := { c with hasSiblingPattern := true } }
    let entry (ending : String) (className : Option String) : Lowered :=
      { start with component := addSiblingEntry start.component body relation ending className }
    match relation, className with
    | .adjacent, some _ => return ({ component := c } : Lowered).report .selectorSibling selector
    | .adjacent, none => return entry "AdjacentSibling" none
    | .general, some name => return entry ("SiblingAfter" ++ Style.camelize name) className
    | .general, none =>
      return if settings.relationMarkers then addMarkerValues selector body start
        else entry "SiblingAfter" none

/-! ## Raised weight -/

/-- A selector that only raises the weight of the component, and its pseudo state. -/
def raised? (text : String) : Option (Option String) := do
  let cs ←
    match text.toList with
    | '.' :: more => do
      let (_, rest) ← run? isSelectorChar more
      blanks? rest
    | cs => some cs
  let rest ← Text.after? ['&', '&'] cs
  match rest.dropWhile (· == '&') with
  | [] => some none
  | rest =>
    match pseudo? rest with
    | some (p, []) => some (some p)
    | _ => none

/-- The value of a property after an entry with raised weight. -/
def raisedValue (existing : Option Value) : Value → Value
  | .obj v =>
    match existing with
    | some (.obj e) => .obj (Object.merge e v)
    | some old =>
      if Object.isConditional v && ((Object.get? v Key.default).getD .null).isNull && !old.isNull then
        .obj (Object.set v Key.default old)
      else .obj v
    | none => .obj v
  | value =>
    match existing with
    | some (.obj e) =>
      if Object.isConditional e then .obj (Object.set e Key.default value) else value
    | _ => value

/-- Puts one entry with raised weight into the styles. -/
def raiseEntry (pseudo : Option String) (styles : Object) (key : Key) (value : Value) : Object :=
  let existing := Object.get? styles key
  match pseudo, value.isObject with
  | some p, false =>
    let conditions := match existing with
      | some (.obj e) =>
        if Object.isConditional e then e else [(Key.default, .obj e)]
      | other => [(Key.default, other.getD .null)]
    Object.set styles key (.obj (Object.set conditions (.name p) value))
  | _, _ => Object.set styles key (raisedValue existing value)

mutual

/-- The body that a value is, the body under a key of it, and so on; a conditional map ends the row. -/
def nestedBodies (key : Key) : Value → List Object
  | .obj o => if Object.isConditional o then [] else o :: nestedBodiesIn key o
  | _ => []

/-- The bodies below a key of a body. -/
def nestedBodiesIn (key : Key) : Object → List Object
  | [] => []
  | (k, v) :: rest => if k = key then nestedBodies key v else nestedBodiesIn key rest

end

/-- The entries of a body that changes at a key: as they were up to the key, as they are after it. -/
def entriesAround (key : Key) (before after : Object) : Object :=
  before.takeWhile (fun (k, _) => k != key) ++ after.dropWhile (fun (k, _) => k != key)

/--
Merges a row of bodies, each of which stands under the key in the one before, into a body.  Every body is
changed while it is read, which is possible only as long as it gets no new keys.
-/
def absorb? (key : Key) (body : Object) : List Object → Option Object
  | [] => some body
  | inner :: deeper => do
    let settled ← absorb? key inner deeper
    let entries := (entriesAround key inner settled).filter fun (k, _) => k != key
    if entries.all fun (k, _) => Object.has body k then some (Object.merge body entries) else none

/--
The entries of the body of a selector in the order and form in which they are read, while the same
selector inside of the body is merged into it.
-/
def readEntries? (styles : Object) (selector : String) (body : Object) : Option Object :=
  let key := Key.name selector
  match Object.get? styles key, Object.get? body key with
  | some (.obj own), some (.obj inner) =>
    if Object.isConditional own then some body
    else (absorb? key body (inner :: nestedBodiesIn key inner)).map (entriesAround key body)
  | _, _ => some body

/-- Styles with raised weight are merged into the styles of the component. -/
def specificity : Pass where
  name := "specificity"
  lower? _ _ c selector body := do
    let pseudo ← raised? (Text.strip selector)
    match readEntries? c.styles selector body with
    | none => return { component := c, fault := some .changedWhileRead }
    | some entries =>
      let styles := entries.foldl (fun styles (k, v) => raiseEntry pseudo styles k v) c.styles
      return {
        component := { c with styles, hasSpecificityHack := true }
        reports := [{ Lowered.diagnostic .specificityHack c selector with severity := .info }] }

/-! ## Inside a component in a pseudo state -/

/-- A selector for the component inside another one that is in a pseudo state. -/
def ancestor? (text : String) : Option (String × String) := do
  let (name, rest) ← componentRef? text.toList
  let (pseudo, rest) ← pseudo? rest
  let rest ← blanks? rest
  if rest == ['&'] then some (name, pseudo) else none

/-- Runs of other characters become hyphens. -/
def hyphenated (text : String) : String :=
  let parts := Text.runsFrom (fun c => !isSelectorChar c) [] text.toList
  let joined := "-".intercalate (parts.map String.ofList)
  String.ofList (((joined.toList.dropWhile (· == '-')).reverse.dropWhile (· == '-')).reverse)

/-- The custom property through which a property depends on another component. -/
def bridgeVariable (child : Component) (property : String) (parent : Component) (pseudo : String) :
    String :=
  "--" ++ Style.kebabCase child.styleKey ++ "-" ++
    Style.kebabCase (Text.dropLeading '-' property) ++ "-on-" ++
    Style.kebabCase parent.styleKey ++ "-" ++ hyphenated pseudo

/-- A reference to a custom property with the value to use where it is not set. -/
def variableReference (name : String) : Value → Value
  | .null => .text ("var(" ++ name ++ ")")
  | .js code => .js ("\x60var(" ++ name ++ ", " ++ Style.templateSlot code ++ ")\x60")
  | .int n => .text ("var(" ++ name ++ ", " ++ toString n ++ ")")
  | .float x => .text ("var(" ++ name ++ ", " ++ Style.renderDouble x ++ ")")
  | v => .text ("var(" ++ name ++ ", " ++ Style.spelled v ++ ")")

/-- Routes the properties of a body through custom properties of another component. -/
def bridgeEntries (parent : Component) (pseudo selector : String) : Object → Lowered → Lowered
  | [], l => l
  | (key, value) :: rest, l =>
    match key, value.isObject with
    | .name property, false =>
      let c := l.component
      let varName := bridgeVariable c property parent pseudo
      let entry := match Object.get? c.styles key with
        | some (.obj o) =>
          if Object.isConditional o then
            .obj (Object.set o Key.default
              (variableReference varName ((Object.get? o Key.default).getD .null)))
          else variableReference varName (.obj o)
        | other => variableReference varName (other.getD .null)
      let c := c.setStyle key entry
      let c := { c with injections := c.injections ++
        [{ target := parent.name, varName, pseudo, value, source := c.name }] }
      bridgeEntries parent pseudo selector rest { l with component := c }
    | _, _ => bridgeEntries parent pseudo selector rest (l.report .complexSelector selector)

/-- Defines one custom property in the component that it hangs on. -/
def inject (arena : Arena) (i : Component.VariableInjection) : Except Fault (Option Arena) :=
  match arena.get? i.target with
  | none => .ok none
  | some parent =>
    let entry := (Object.get? parent.styles (.name i.varName)).getD (.obj [(Key.default, .null)])
    match entry with
    | .obj o =>
      let o := Object.set o (.name i.pseudo) i.value
      .ok (some (arena.set i.target (parent.setStyle (.name i.varName) (.obj o))))
    | _ => .error .writeToLeaf

/-- Defines custom properties, with notes on what has been done. -/
def injectAll (source : String) : List Component.VariableInjection →
    Arena × List (String × String × String) → Except Fault (Arena × List (String × String × String))
  | [], acc => .ok acc
  | i :: rest, (arena, notes) => do
    match ← inject arena i with
    | none => injectAll source rest (arena, notes)
    | some arena' =>
      let note := (i.varName, "injected", source ++ " -> " ++ i.target)
      injectAll source rest (arena', notes ++ [note])

/-- Styles inside a component in a pseudo state go through custom properties of that component. -/
def ancestor : Pass where
  name := "ancestor"
  lower? _ arena c selector body := do
    let (name, pseudo) ← ancestor? (Text.strip selector)
    let parent ← arena.get? name
    if parent.name == c.name then none
    return bridgeEntries parent pseudo selector body { component := c }
  finish arena :=
    arena.values.foldlM (fun acc c => injectAll c.name c.injections acc) (arena, [])

/-- The passes in order. -/
def allPasses : List Pass :=
  [universal, descendant, attributes, siblings, specificity, ancestor]

end Restyle.Lowering
