import Restyle.Component.Basic
import Restyle.Style.Merge
import Restyle.Style.Naming
import Restyle.Style.Render

/-!
# The registry of styles

All styles of a module go into one registry, whose order decides which of two styles wins: first the
mixins, then the components in the order of their declarations.  A component brings its base, its further
entries, its variants and its style functions, in this order; where siblings are told apart, the further
entries come before the base.
-/

namespace Restyle

open Restyle.Style (Key Object Value)

/-- A style with a parameter. -/
structure StyleFunction where
  paramName : String
  paramType : String
  body : Object := []

/-- An entry of a registry. -/
inductive RegistryEntry where
  | styles (o : Object)
  | function (f : StyleFunction)

/-- The styles of a module by key, in order. -/
abbrev Registry := Table RegistryEntry

namespace Registry

/-- Adds an entry.  Styles are merged into styles; anything else takes the place of what was there. -/
def add (r : Registry) (key : String) (entry : RegistryEntry) : Registry :=
  match r.get? key, entry with
  | some (.styles known), .styles o => r.set key (.styles (known.merge o))
  | _, _ => r.set key entry

/-- The value that a style function assigns, inside the innermost condition around it. -/
def functionValue (e : Component.DynamicEntry) : Value :=
  let expression :=
    if e.fallback.isNull then e.expression
    else e.expression ++ " ?? " ++ Style.literalCode e.fallback
  match e.conditions.getLast? with
  | some condition => .obj (Object.set [(Key.default, .null)] (.name condition) (.js expression))
  | none => .js expression

/-- Sets a property in the body of a style function, inside a pseudo-element if there is one. -/
def assign (body : Object) (e : Component.DynamicEntry) : Except Fault Object :=
  let key := Key.name e.property
  match e.pseudoElement.filter fun p => !p.isEmpty with
  | none => .ok (Object.set body key (functionValue e))
  | some element =>
    match (Object.get? body (.name element)).getD (.obj []) with
    | .obj inner => .ok (Object.set body (.name element) (.obj (Object.set inner key (functionValue e))))
    | _ => .error .writeToLeaf

/-- The style functions of a component by key. -/
def functionsOf (entries : List Component.DynamicEntry) : Except Fault (Table StyleFunction) :=
  entries.foldlM
    (fun functions e => do
      let known := (functions.get? e.key).getD { paramName := e.paramName, paramType := e.paramType }
      let body ← assign known.body e
      return functions.set e.key { known with body })
    []

/-- The entries of a component in order. -/
def entriesOf (c : Component) : Except Fault (List (String × RegistryEntry)) := do
  let base := if c.hasBaseEntry then [(c.styleKey, RegistryEntry.styles c.styles)] else []
  let extras := c.extraStyles.map fun (key, o) => (key, RegistryEntry.styles o)
  let variants := (c.variants.filter fun b => !b.styles.isEmpty).map fun b =>
    (b.name, RegistryEntry.styles b.styles)
  let functions := (← functionsOf c.dynamicEntries).map fun (key, f) =>
    (key, RegistryEntry.function f)
  let own := if c.hasSiblingPattern then extras ++ base else base ++ extras
  return own ++ variants ++ functions

/-- The registry of the mixins and components of a module. -/
def ofComponents (mixins : Table Object) (arena : Arena) : Except Fault Registry := do
  let entries ← arena.values.mapM entriesOf
  let mixins := mixins.map fun (key, o) => (key, RegistryEntry.styles o)
  return (mixins ++ entries.flatten).foldl (fun r (key, entry) => r.add key entry) []

/-! ## Emitted declarations -/

/-- How declarations are written. -/
structure Dialect where
  /-- The name of the imported library. -/
  library : String := "stylex"
  /-- The name of the registry. -/
  stylesName : String := "styles"
  /-- Whether types are written. -/
  isTyped : Bool := true

/-- The text of an object at a level of indentation. -/
def renderStyles (level : Nat) (o : Object) : Except Fault String :=
  match Style.renderObject level o with
  | .ok text => .ok text
  | .error .blockValue => .error .blockValue

/-- The declaration of an animation. -/
def Dialect.keyframes (d : Dialect) (name : String) (frames : Object) : Except Fault String := do
  return "const " ++ name ++ " = " ++ d.library ++ ".keyframes(" ++ (← renderStyles 0 frames) ++ ");"

/-- The text of an entry. -/
def Dialect.entry (d : Dialect) : RegistryEntry → Except Fault String
  | .styles o => renderStyles 1 o
  | .function f => do
    let param := if d.isTyped then f.paramName ++ ": " ++ f.paramType else f.paramName
    return "(" ++ param ++ ") => (" ++ (← renderStyles 1 f.body) ++ ")"

/-- The declaration of a registry; there is none for an empty one. -/
def Dialect.declaration (d : Dialect) (r : Registry) : Except Fault String := do
  if r.isEmpty then return ""
  let lines ← r.mapM fun (key, entry) => do
    return "  " ++ Style.renderKey (.name key) ++ ": " ++ (← d.entry entry) ++ ","
  let opening := "const " ++ d.stylesName ++ " = " ++ d.library ++ ".create(\x7b"
  return "\n".intercalate (opening :: lines ++ ["\x7d);"])

end Registry

end Restyle
