import Restyle.Diagnostic
import Restyle.Interpolation.Decision
import Restyle.Table

/-!
# Components

All that is known about a component while it is converted: its styles, the entries that depend on props
or on its surroundings, and the way it is rendered.  Components refer to each other by name only.
-/

namespace Restyle

open Restyle.Style (Value Object Key)

namespace Component

/-- Which elements a style goes to. -/
inductive TargetKind where
  | directChildren
  | directChildrenExceptFirst
  | directChildrenExceptLast
  | directChildrenFirst
  | descendantComponent
  deriving DecidableEq, Repr

/-- The word for a kind of target. -/
def TargetKind.text : TargetKind → String
  | .directChildren => "direct-children"
  | .directChildrenExceptFirst => "direct-children-except-first"
  | .directChildrenExceptLast => "direct-children-except-last"
  | .directChildrenFirst => "direct-children-first"
  | .descendantComponent => "descendant-styled-component"

/-- A style that the usages of a component hand to other elements. -/
structure ElementRule where
  kind : TargetKind
  styleKey : String
  target : Option String := none
  deriving DecidableEq, Repr

/-- A custom property that another component has to define. -/
structure VariableInjection where
  target : String
  varName : String
  pseudo : String
  value : Value
  source : String := ""

/-- A style for a component inside another one. -/
structure RelationOverride where
  parentKey : String
  childKey : Option String
  overrideKey : String
  crossFile : Bool := false
  importedName : Option String := none
  deriving DecidableEq, Repr

/-- How an attribute is compared. -/
inductive AttributeOperator where
  | present
  | equals
  | startsWith
  | endsWith
  | contains
  deriving DecidableEq, Repr

/-- The sign of a comparison. -/
def AttributeOperator.text : AttributeOperator → String
  | .present => ""
  | .equals => "="
  | .startsWith => "^="
  | .endsWith => "$="
  | .contains => "*="

/-- The comparison of a sign. -/
def AttributeOperator.ofText? (s : String) : Option AttributeOperator :=
  [present, equals, startsWith, endsWith, contains].find? fun op => op.text == s

/-- A style that holds while an attribute passes a test. -/
structure AttributeSelector where
  styleKey : String
  attr : String
  operator : AttributeOperator := .present
  value : Option String := none
  pseudoElement : Option String := none
  deriving DecidableEq, Repr

/-- How two siblings stand to each other. -/
inductive SiblingRelation where
  | adjacent
  | general
  deriving DecidableEq, Repr

/-- The word for a relation. -/
def SiblingRelation.text : SiblingRelation → String
  | .adjacent => "adjacent"
  | .general => "general"

/-- A style that holds after a sibling; usages pass it as a flag. -/
structure SiblingSelector where
  styleKey : String
  relation : SiblingRelation
  propName : String
  className : Option String := none
  deriving DecidableEq, Repr

/-- A property whose value is computed from a prop. -/
structure DynamicEntry where
  key : String
  paramName : String
  paramType : String
  property : String
  expression : String
  propName : String
  conditions : List String := []
  pseudoElement : Option String := none
  fallback : Value := .null

/-- A value that is set through the `style` prop. -/
structure InlineStyle where
  property : String
  expression : String
  props : List String := []
  deriving DecidableEq, Repr

end Component

open Component in
/-- A component under conversion. -/
structure Component where
  name : String
  styleKey : String
  base : String
  baseIsIntrinsic : Bool := true
  location : Option Location := none
  isExported : Bool := false
  styles : Object := []
  extraStyles : Table Object := []
  variants : List Interpolation.Branch := []
  dynamicEntries : List DynamicEntry := []
  attributeSelectors : List AttributeSelector := []
  siblingSelectors : List SiblingSelector := []
  elementRules : List ElementRule := []
  injections : List VariableInjection := []
  overrides : List RelationOverride := []
  inlineStyles : List InlineStyle := []
  mixinRefs : List String := []
  staticAttrs : Table String := []
  heldBack : List String := []
  propDependencies : List String := []
  transientProps : List String := []
  important : List String := []
  typeArguments : Option String := none
  needsWrapper : Bool := false
  supportsAs : Bool := false
  hasForwardTest : Bool := false
  hasSpecificityHack : Bool := false
  needsDefaultMarker : Bool := false
  hasSiblingPattern : Bool := false

namespace Component

/-- Adds props that the component reads. -/
def addPropDependencies (c : Component) (props : List String) : Component :=
  props.foldl
    (fun c p =>
      if p.isEmpty || c.propDependencies.contains p then c
      else { c with propDependencies := c.propDependencies ++ [p] }) c

/-- Adds a further style entry; in an entry that is there already, later keys win. -/
def addExtra (c : Component) (key : String) (styles : Object) : Component :=
  match c.extraStyles.get? key with
  | some known =>
    let merged := styles.foldl (fun o (k, v) => Object.set o k v) known
    { c with extraStyles := c.extraStyles.set key merged }
  | none => { c with extraStyles := c.extraStyles.set key styles }

/-- Sets an entry of the styles. -/
def setStyle (c : Component) (key : Key) (value : Value) : Component :=
  { c with styles := Object.set c.styles key value }

/-- The guards of the variants. -/
def variantGuards (c : Component) : Table String :=
  Table.ofList (c.variants.map fun v => (v.name, v.guard))

/-- Whether the component has styles of its own. -/
def hasBaseEntry (c : Component) : Bool := !c.styles.isEmpty

end Component

/-- The components of a module, in the order of their declarations. -/
abbrev Arena := Table Component

end Restyle
