import Restyle.Component.Basic
import Restyle.Data.Field
import Restyle.Interpolation.AdapterSpec
import Restyle.Style.Naming

/-!
# Components as data

The form in which components are exchanged.  Fields may be left out when a component is read.
-/

namespace Restyle

open Restyle.Interpolation (Branch)
open Restyle.Style (Object Value)

/-- A place as data. -/
def Location.toData : Option Location → Data
  | some l => Data.pair l.line l.column
  | none => .null

/-- The place that data stands for. -/
def Location.ofData? : Data → Option Location
  | .list [l, c] => some ⟨l.integer.toNat, c.integer.toNat⟩
  | _ => none

/-- A branch as data. -/
def Interpolation.Branch.toData (b : Branch) : Data :=
  .obj [("name", b.name), ("guard", b.guard), ("styles", Object.toData b.styles)]

namespace Component

/-- The kind of target that a word stands for. -/
def TargetKind.ofText (s : String) : TargetKind :=
  ([directChildrenExceptFirst, directChildrenExceptLast, directChildrenFirst,
    descendantComponent].find? fun k => k.text == s).getD directChildren

/-- A rule for elements as data. -/
def ElementRule.toData (r : ElementRule) : Data :=
  .obj [("kind", r.kind.text), ("style_key", r.styleKey),
    ("target_component", Data.ofText? r.target)]

/-- An inline style as data. -/
def InlineStyle.toData (i : InlineStyle) : Data :=
  .obj [("css_property", i.property), ("expression", i.expression), ("props", Data.ofTexts i.props)]

/-- A style function as data. -/
def DynamicEntry.toData (e : DynamicEntry) : Data :=
  .obj [("key", e.key), ("param_name", e.paramName), ("param_type", e.paramType),
    ("css_property", e.property), ("value_expression", e.expression), ("prop_name", e.propName),
    ("conditions", Data.ofTexts e.conditions), ("pseudo_element", Data.ofText? e.pseudoElement),
    ("fallback_value", e.fallback.toData)]

/-- An attribute selector as data. -/
def AttributeSelector.toData (a : AttributeSelector) : Data :=
  .obj [("style_key", a.styleKey), ("attribute", a.attr), ("operator", a.operator.text),
    ("value", Data.ofText? a.value), ("pseudo_element", Data.ofText? a.pseudoElement)]

/-- A sibling selector as data. -/
def SiblingSelector.toData (s : SiblingSelector) : Data :=
  .obj [("style_key", s.styleKey), ("relation", s.relation.text), ("prop_name", s.propName),
    ("class_name", Data.ofText? s.className)]

/-- An injected custom property as data. -/
def VariableInjection.toData (i : VariableInjection) : Data :=
  .obj [("target_component", i.target), ("var_name", i.varName), ("pseudo", i.pseudo),
    ("value", i.value.toData), ("source_component", i.source)]

/-- An override as data. -/
def RelationOverride.toData (r : RelationOverride) : Data :=
  .obj [("parent_style_key", r.parentKey), ("child_style_key", Data.ofText? r.childKey),
    ("override_style_key", r.overrideKey), ("cross_file", r.crossFile),
    ("cross_file_component_local_name", Data.ofText? r.importedName)]

/-- The words for what holds of a component. -/
def flags (c : Component) : List String :=
  ([("needs_wrapper", c.needsWrapper), ("supports_as", c.supportsAs),
    ("has_should_forward_prop", c.hasForwardTest), ("has_specificity_hack", c.hasSpecificityHack),
    ("needs_default_marker", c.needsDefaultMarker), ("has_sibling_pattern", c.hasSiblingPattern),
    ("has_dynamic_styles", !c.dynamicEntries.isEmpty)].filter (·.2)).map (·.1)

/-- A component as data. -/
def toData (c : Component) : Data :=
  .obj [("name", c.name), ("style_key", c.styleKey), ("base", c.base),
    ("base_is_intrinsic", c.baseIsIntrinsic), ("location", Location.toData c.location),
    ("is_exported", c.isExported), ("styles", Object.toData c.styles),
    ("extra_styles", c.extraStyles.map fun (k, o) => Data.pair k (Object.toData o)),
    ("variants", c.variants.map Branch.toData), ("variant_guards", Data.ofPairs c.variantGuards),
    ("dynamic_fns", c.dynamicEntries.map DynamicEntry.toData),
    ("attribute_selectors", c.attributeSelectors.map AttributeSelector.toData),
    ("sibling_selectors", c.siblingSelectors.map SiblingSelector.toData),
    ("jsx_rewrite_rules", c.elementRules.map ElementRule.toData),
    ("css_var_injections", c.injections.map VariableInjection.toData),
    ("relation_overrides", c.overrides.map RelationOverride.toData),
    ("inline_styles", c.inlineStyles.map InlineStyle.toData),
    ("mixin_refs", Data.ofTexts c.mixinRefs), ("static_attrs", Data.ofPairs c.staticAttrs),
    ("forward_filter", Data.ofTexts c.heldBack),
    ("prop_dependencies", Data.ofTexts c.propDependencies),
    ("transient_props", Data.ofTexts c.transientProps),
    ("important_properties", Data.ofTexts c.important),
    ("type_arguments", Data.ofText? c.typeArguments), ("flags", Data.ofTexts c.flags)]

/-- The style function that data stands for. -/
def DynamicEntry.ofData (d : Data) : DynamicEntry :=
  { key := d.textAt "key", paramName := d.textAt "param_name"
    paramType := d.textOr "param_type" "string", property := d.textAt "css_property"
    expression := d.textAt "value_expression", propName := d.textAt "prop_name"
    conditions := d.textsAt "conditions", pseudoElement := d.textAt? "pseudo_element"
    fallback := Value.ofData (d.get "fallback_value") }

/-- The attribute selector that data stands for. -/
def AttributeSelector.ofData (d : Data) : AttributeSelector :=
  { styleKey := d.textAt "style_key", attr := d.textAt "attribute"
    operator := (AttributeOperator.ofText? (d.textAt "operator")).getD .present
    value := d.textAt? "value", pseudoElement := d.textAt? "pseudo_element" }

/-- The sibling selector that data stands for. -/
def SiblingSelector.ofData (d : Data) : SiblingSelector :=
  { styleKey := d.textAt "style_key"
    relation := if d.textAt "relation" == "general" then .general else .adjacent
    propName := d.textAt "prop_name", className := d.textAt? "class_name" }

/-- The styles under names that a field holds. -/
def stylesAt (d : Data) (name : String) : Table Object :=
  Table.ofList ((d.pairsAt name).map fun (k, v) => (k.text, Object.ofData v))

/-- The component that data stands for. -/
def ofData (d : Data) : Component :=
  let name := d.textAt "name"
  let base := d.textOr "base" "div"
  { name, base
    styleKey := d.textOr "style_key" (Style.styleKey name)
    baseIsIntrinsic := d.flagOr "base_is_intrinsic" (Text.startsLower base)
    isExported := d.flagAt "is_exported"
    location := Location.ofData? (d.get "location")
    styles := Object.ofData (d.get "styles")
    extraStyles := stylesAt d "extra_styles"
    variants := (d.listAt "variants").map Branch.ofData
    dynamicEntries := (d.listAt "dynamic_fns").map DynamicEntry.ofData
    attributeSelectors := (d.listAt "attribute_selectors").map AttributeSelector.ofData
    siblingSelectors := (d.listAt "sibling_selectors").map SiblingSelector.ofData
    elementRules := (d.listAt "jsx_rewrite_rules").map fun r =>
      { kind := TargetKind.ofText (r.textAt "kind"), styleKey := r.textAt "style_key"
        target := r.textAt? "target_component" }
    inlineStyles := (d.listAt "inline_styles").map fun i =>
      { property := i.textAt "css_property", expression := i.textAt "expression"
        props := i.textsAt "props" }
    staticAttrs := Table.ofList ((d.pairsAt "static_attrs").map fun (k, v) => (k.text, v.text))
    mixinRefs := d.textsAt "mixin_refs"
    heldBack := d.textsAt "forward_filter"
    propDependencies := d.textsAt "prop_dependencies"
    transientProps := d.textsAt "transient_props"
    typeArguments := d.textAt? "type_arguments"
    hasSpecificityHack := d.flagAt "has_specificity_hack"
    needsDefaultMarker := d.flagAt "needs_default_marker"
    hasSiblingPattern := d.flagAt "has_sibling_pattern"
    hasForwardTest := d.flagAt "has_should_forward_prop" }

end Component

end Restyle
