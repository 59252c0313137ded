import Restyle.DiagnosticName
import Restyle.Interpolation.Decision
import Restyle.Style.Encoding

/-!
# Declared adapters

An adapter may be given by tables: answers for values and calls, decisions for classes of slots, and a
decision for slots that nobody takes.
-/

namespace Restyle.Interpolation

open Restyle.Style (Value Object)

/-- The texts of a list. -/
def textsOf (d : Data) : List String :=
  (d.items?.getD []).filterMap Data.str?

/-- The branch that data stands for. -/
def Branch.ofData (d : Data) : Branch :=
  { name := (d.get "name").str?.getD ""
    guard := (d.get "guard").str?.getD ""
    styles := Object.ofData (d.get "styles") }

/-- The value at run time that data stands for. -/
def DynamicValue.ofData (d : Data) : DynamicValue :=
  { paramName := (d.get "param_name").str?.getD ""
    paramType := (d.get "param_type").str?.getD "string"
    expression := (d.get "value_expression").str?.getD ""
    fallback := Value.ofData (d.get "fallback_value")
    passedProp := (d.get "original_prop_name").str?
    property := (d.get "css_property").str?.getD "" }

/-- The decision that data stands for. -/
def Decision.ofData? (d : Data) : Option Decision := do
  match ← (d.get "action").str? with
  | "convert" => some (.convert (Value.ofData (d.get "value")))
  | "rewrite" => some (.reference ((d.get "code").str?.getD ""))
  | "bail" =>
    let reason ← (d.get "reason").str?.bind DiagnosticKind.ofName?
    some (.bail reason (textsOf (d.get "props")) (d.get "inline").str?)
  | "variant" =>
    some (.variant ((d.get "prop_name").str?.getD "") (Value.ofData (d.get "comparison_value"))
      (Value.ofData (d.get "base_value")) (((d.get "variants").items?.getD []).map Branch.ofData))
  | "dynamic-fn" => some (.dynamic (DynamicValue.ofData d))
  | _ => none

namespace ProjectAdapter

/-- Whether the given fields of a row have the given texts; a field without a value fits always. -/
def rowFits (row : Data) (wanted : List (String × Option String)) : Bool :=
  wanted.all fun (name, value) =>
    match row.get name with
    | .null => true
    | .str s => value == some s
    | _ => false

/-- The result of the first row that fits. -/
def firstResult? (rows : List Data) (wanted : List (String × Option String)) : Option Data :=
  (rows.find? fun row => rowFits row wanted).map fun row => row.get "result"

/-- The answer for a theme path below a name. -/
def themeResult (name path : String) : Data :=
  .obj [
    ("expr", .str (name ++ "." ++ Text.replace "." "_" path)),
    ("imports", .list [.obj [
      ("from", .obj [("value", .str "./tokens.stylex")]),
      ("names", .list [.obj [("imported", .str name)]])]])]

/-- The answer for a value. -/
def valueResult (spec : Data) (q : Adapter.ValueQuery) : Data :=
  let wanted := [("kind", some q.kind.text), ("path", some q.path),
    ("import_source", q.importSource), ("css_property", q.property)]
  match firstResult? ((spec.get "values").items?.getD []) wanted with
  | some result => result
  | none =>
    match spec.get "theme" with
    | .str name => if q.kind == .theme then themeResult name q.path else .null
    | _ => .null

/-- The answer for a call. -/
def callResult (spec : Data) (q : Adapter.CallQuery) : Data :=
  let wanted := [("name", some q.callee), ("source", some q.source)]
  (firstResult? ((spec.get "calls").items?.getD []) wanted).getD .null

/-- The reply of a declared handler. -/
def handlerReply (row : Data) (c : Classified) : HandlerReply :=
  if rowFits row [("tag", some c.tag.text)] then
    if (row.get "raise").flag?.getD false then .fault
    else
      match Decision.ofData? (row.get "decision") with
      | some d => .decide d
      | none => .decline
  else .decline

/-- The declared treatment of slots that nobody takes. -/
def fallbackOf (d : Data) : Option Fallback :=
  match d with
  | .str "bail" => some (.behavior .bail)
  | .str "drop" => some (.behavior .drop)
  | .obj _ => some (.reply fun _ _ => Decision.ofData? (d.get "decision"))
  | _ => none

/-- The adapter that data declares; no data declares the adapter that resolves nothing. -/
def ofData (spec : Data) : ProjectAdapter :=
  { resolveValue := valueResult spec
    resolveCall := callResult spec
    handlers := ((spec.get "handlers").items?.getD []).map fun row c _ => handlerReply row c
    fallback := fallbackOf (spec.get "fallback")
    styleMerger :=
      match (spec.get "style_merger").get "function_name",
          (spec.get "style_merger").get "import_source" with
      | .str functionName, .str importSource =>
        some { functionName := functionName, importSource := importSource }
      | _, _ => none }

end ProjectAdapter

end Restyle.Interpolation
