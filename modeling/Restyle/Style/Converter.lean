import Restyle.Css.Rule
import Restyle.Css.Split
import Restyle.Style.Conditional
import Restyle.Style.Join
import Restyle.Style.PseudoPath
import Restyle.Style.Shorthand

/-!
# From rules to style objects

A rule becomes a style object: its declarations become properties, its pseudo rules and conditional
at-rules become blocks under their keys, and every other nested rule is kept under its raw selector.
Values with slots are completed by a resolver, which is asked once for every slot in reading order.
-/

namespace Restyle.Style

/-- Where a declaration stands: the conditions and pseudo-element around it, and the raw selector. -/
structure Scope where
  conditions : List String := []
  pseudoElement : Option String := none
  selector : String := "&"
  deriving DecidableEq, Repr

/-- A slot that needs a value, and the declaration around it. -/
structure SlotRequest where
  index : Nat
  property : String
  value : String
  token : String
  tokens : List String
  tokenIndex : Nat := 0
  isFullValue : Bool := false
  scope : Scope := {}

/-- The answer for a slot. -/
inductive SlotAnswer where
  /-- The slot gives the declaration no value. -/
  | omit
  /--
  The value of the slot in a declaration, the property it belongs to when it is another one, and the
  entries that stand in its place in block position.
  -/
  | given (value : Value) (property : Option String := none) (styles : Object := [])

/-- Completes the slots of a template. -/
structure Resolver (τ : Type) where
  slot : SlotRequest → Work τ SlotAnswer
  selector : Nat → Work τ (Option String)
  location : Option Location := none

/-- The literal piece or expression that an answered value contributes to a longer value. -/
def partOf : Value → Value
  | .js code => .js code
  | .null => .text ""
  | .bool true => .text "true"
  | .bool false => .text "false"
  | .int n => .text (toString n)
  | .float x => .text (renderDouble x)
  | v => .text (spelled v)

/-- The position of the first token that holds a slot mark. -/
def tokenIndexOf (tokens : List String) (written : String) : Nat :=
  (tokens.findIdx? (Text.mentions written)).getD 0

/-- The property an answer belongs to: the one it names, if it names one. -/
def targetProperty (property : String) (other : Option String) : String :=
  match other with
  | some name => if name.isEmpty then property else name
  | none => property

section

variable {τ : Type}

/-- Asks for the slots of a text in order; stops at the first one without a value. -/
def resolvePieces (r : Resolver τ) (base : SlotRequest) :
    List Css.Slot.Piece → Work τ (Option (List Value))
  | [] => return some []
  | .text cs :: pieces => do
    return (← resolvePieces r base pieces).map (Value.text (String.ofList cs) :: ·)
  | .slot index written :: pieces => do
    let tokenIndex := tokenIndexOf base.tokens (String.ofList written)
    let token := base.tokens[tokenIndex]?.getD ""
    match ← r.slot { base with index, token, tokenIndex } with
    | .omit => return none
    | .given v _ _ => return (← resolvePieces r base pieces).map (partOf v :: ·)

/-- The value of a text with slots; `none` when a slot gives none. -/
def splice (r : Resolver τ) (text : String) (base : SlotRequest) : Work τ (Option Value) := do
  let some parts ← resolvePieces r base (Css.Slot.pieces text.toList) | return none
  match joinParts parts with
  | .text s => return some (normalizeValue base.property s)
  | v => return some v

/-- Adds the longhands of a shorthand that holds slots. -/
def spliceLonghands (r : Resolver τ) (base : SlotRequest) : Object → Expansion → Work τ Object
  | obj, [] => return obj
  | obj, (longhand, token) :: rest => do
    if Css.Slot.present token then
      match ← splice r token { base with property := longhand, value := token } with
      | some v => spliceLonghands r base (obj.set (.name longhand) v) rest
      | none => spliceLonghands r base obj rest
    else spliceLonghands r base (obj.set (.name longhand) (normalizeValue longhand token)) rest

/-- Adds a declaration without slots. -/
def setStatic (obj : Object) (property value : String) : Object :=
  match expandShorthand property value with
  | some expansion =>
    expansion.foldl (fun o (longhand, token) => o.set (.name longhand) (normalizeValue longhand token))
      obj
  | none => obj.set (.name property) (normalizeValue property value)

/-- Adds a declaration whose value holds slots. -/
def setDynamic (r : Resolver τ) (scope : Scope) (obj : Object) (property value : String) :
    Work τ Object := do
  if Css.Slot.isWhole value then
    let index := (Css.Slot.indices value).headD 0
    match ← r.slot { index, property, value, token := value, tokens := [value],
                     isFullValue := true, scope } with
    | .omit => return obj
    | .given v other _ => return obj.set (.name (targetProperty property other)) v
  else
    let tokens := Css.valueTokens value
    let base : SlotRequest := { index := 0, property, value, token := "", tokens, scope }
    match expandShorthand property value with
    | some expansion => spliceLonghands r base obj expansion
    | none =>
      match ← splice r value base with
      | some v => return obj.set (.name property) v
      | none => return obj

/-- Adds a lone slot in block position. -/
def setBlock (r : Resolver τ) (scope : Scope) (obj : Object) (value : String) : Work τ Object := do
  let index := (Css.Slot.indices value).headD 0
  match ← r.slot { index, property := "", value, token := value, tokens := [value],
                   isFullValue := true, scope } with
  | .omit => return obj
  | .given _ _ styles => return obj.merge styles

/-- Adds one declaration to an object. -/
def convertDeclaration (r : Resolver τ) (scope : Scope) (obj : Object) (d : Css.Declaration) :
    Work τ Object := do
  if d.property.isEmpty then
    if d.isBlockSlot then setBlock r scope obj d.value else return obj
  else if Css.Slot.present d.property then
    Work.report { kind := .unsupportedProperty, location := r.location,
                  context := [("property", .str d.property)] }
    return obj
  else
    let (value, important) := stripImportant d.value
    let property := camelCase d.property
    if important then modify fun s => { s with important := s.important ++ [property] }
    if Css.Slot.present value then setDynamic r scope obj property value
    else return setStatic obj property value

/-- A selector with its slots filled; `none` when one of them has no text. -/
def fillSelector (r : Resolver τ) : String → List Nat → Work τ (Option String)
  | selector, [] => return some selector
  | selector, index :: indices => do
    match ← r.selector index with
    | none => return none
    | some text => fillSelector r (Css.Slot.fill selector index text) indices

/-- The scope inside a block with a given key path. -/
def Scope.enter (scope : Scope) : List String → Scope
  | [] => scope
  | key :: path =>
    if (Key.name key).isPseudoElement then { scope with pseudoElement := some key }.enter path
    else { scope with conditions := scope.conditions ++ [key] }.enter path

/-- Merges a body into the object at a key path. -/
def mergeBody (obj : Object) (path : List Key) (body : Object) : Work τ Object :=
  match obj.mergeAt path body with
  | .ok o => return o
  | .error fault => throw fault

mutual

/-- The style object of a rule, with the blocks of its conditions still nested. -/
def convertRule (r : Resolver τ) (scope : Scope) : Css.Rule → Work τ Object
  | ⟨_, declarations, nested, _⟩ => do
    let obj ← declarations.foldlM (convertDeclaration r scope) []
    convertNested r scope obj nested

/-- Adds the nested rules of a rule to its object, in order. -/
def convertNested (r : Resolver τ) (scope : Scope) (obj : Object) :
    List Css.Rule → Work τ Object
  | [] => return obj
  | child :: rest => do
    match ← fillSelector r child.selector (Css.Slot.indices child.selector) with
    | none => convertNested r scope obj rest
    | some selector =>
      match nestedPaths? selector with
      | some paths =>
        let obj ← paths.foldlM
          (fun obj path => do
            let body ← convertRule r (scope.enter path) child
            mergeBody obj (path.map Key.name) body)
          obj
        convertNested r scope obj rest
      | none =>
        if Css.isAtRule selector then
          Work.trace (·.inspection selector "dropped" "at-rule without a StyleX equivalent")
          convertNested r scope obj rest
        else
          let body ← convertRule r { selector := selector } child
          let obj ← mergeBody obj [.name selector] body
          convertNested r scope obj rest

end

/-- The style object of a rule with property-level conditions; dropped blocks are reported. -/
def convert (r : Resolver τ) (rule : Css.Rule) : Work τ Object := do
  let raw ← convertRule r {} rule
  let (styles, dropped) := flatten raw
  for place in dropped do
    Work.report { kind := .complexSelector, location := r.location,
                  context := [("selector", .str place)] }
  return styles

/-- A resolver that gives no slot a value. -/
def Resolver.none : Resolver τ where
  slot _ := return .omit
  selector _ := return Option.none

/-- Runs a conversion and returns the properties whose `!important` it dropped. -/
def withImportant (work : Work τ Object) : Work τ (Object × List String) := do
  let outer := (← get).important
  modify fun s => { s with important := [] }
  let styles ← work
  let found := (← get).important
  modify fun s => { s with important := outer }
  return (styles, found)

end

end Restyle.Style
