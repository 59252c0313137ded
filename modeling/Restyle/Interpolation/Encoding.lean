import Restyle.Component.Encoding
import Restyle.Interpolation.AdapterSpec

/-!
# Slots as data

The form in which classified slots, decisions and questions to an adapter are written down.
-/

namespace Restyle

open Restyle.Style (Value)

/-- A classified slot as data. -/
def Interpolation.Classified.toData (c : Interpolation.Classified) : Data :=
  .obj [("tag", c.tag.text), ("source", c.source), ("index", .int c.index),
    ("param_name", Data.ofText? c.param), ("path", Data.ofTexts c.path),
    ("comparison", match c.comparison with
      | some (op, v) => Data.pair op v.toData
      | none => .null),
    ("negated", c.negated), ("truthy", c.truthy.toData), ("falsy", c.falsy.toData),
    ("has_falsy_branch", c.hasFalsyBranch), ("fallback", c.fallback.toData),
    ("operator", Data.ofText? c.operator), ("helper_name", Data.ofText? c.helperName),
    ("imported_name", Data.ofText? c.importedName), ("import_source", Data.ofText? c.importSource),
    ("args", Data.ofTexts c.arguments), ("keyframes_name", Data.ofText? c.keyframesName),
    ("mixin_name", Data.ofText? c.mixinName), ("prop_name", Data.ofText? c.propName?),
    ("is_theme_path", c.isThemePath)]

/-- A decision as data. -/
def Interpolation.Decision.toData (d : Interpolation.Decision) : Data :=
  .obj (("action", d.action) :: match d with
    | .convert v => [("value", v.toData)]
    | .reference code => [("code", code)]
    | .bail reason props inline =>
      [("reason", reason.message), ("props", Data.ofTexts props), ("inline", Data.ofText? inline)]
    | .variant prop comparison base branches =>
      [("prop_name", prop), ("comparison_value", comparison.toData), ("base_value", base.toData),
        ("variants", branches.map Branch.toData)]
    | .dynamic v =>
      [("param_name", v.paramName), ("param_type", v.paramType),
        ("value_expression", v.expression), ("fallback_value", v.fallback.toData),
        ("original_prop_name", Data.ofText? v.passedProp), ("css_property", v.property)])

/-- A question to an adapter as data. -/
def Adapter.Query.toData : Adapter.Query → Data
  | .value q => [("value" : Data), q.kind.text, q.path, Data.ofText? q.property,
      Data.ofText? q.importSource, Data.ofText? q.defaultValue]
  | .call q => [("call" : Data), q.callee, q.source, Data.ofTexts q.arguments,
      Data.ofText? q.property]

/-- A requested import as data. -/
def Adapter.ImportSpec.toData (s : Adapter.ImportSpec) : Data :=
  .obj [("kind", s.source.kind.text), ("from", s.source.value),
    ("names", s.names.map fun n => Data.pair n.imported (Data.ofText? n.localName)),
    ("namespace", Data.ofText? s.wholeName)]

end Restyle
