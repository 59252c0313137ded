import Restyle.Component.Encoding
import Restyle.Plan.Basic

/-!
# Plans as data

The form in which plans are written down.
-/

namespace Restyle.ComponentPlan

/-- The fields of a plan as data. -/
def fields (p : ComponentPlan) : List (String × Data) :=
  [("name", p.name), ("render_mode", p.mode.text), ("element", p.element),
    ("element_is_intrinsic", p.elementIsIntrinsic),
    ("style_args", Data.ofTexts (p.styleArgs.map StyleArg.text)),
    ("destructure", Data.ofTexts p.takenProps),
    ("inline_styles", p.component.inlineStyles.map Component.InlineStyle.toData),
    ("static_attrs", Data.ofPairs p.staticAttrs),
    ("jsx_rules", p.elementRules.map Component.ElementRule.toData),
    ("accepts_external_styles", p.acceptsStyles), ("forwards_as", p.forwardsAs),
    ("needs_wrapper", p.component.needsWrapper), ("supports_as", p.component.supportsAs),
    ("polymorphic", p.isPolymorphic), ("unconditional_args", Data.ofTexts p.plainArgs)]

end Restyle.ComponentPlan
