import Restyle.Proofs.Settling
import Restyle.Proofs.Standing

/-!
# What raised weight keeps

A selector that only raises the weight of the component has its body merged into the styles of the component,
property by property.  Plain values take the place of resting ones and leave values under conditions alone.
Conditional maps are merged too, but with their default: a default of null overwrites the resting value of
another map, and the default of a map under a pseudo state becomes the resting value.  Inside of nested objects
everything that the body names takes the place of what was there.
-/

namespace Restyle.Style

/-! ## Values at a place -/

namespace Object

/--
The value of a property inside of the nested objects along a path.  The conditional map of a property is no
nested object.
-/
def place? (o : Object) : List Key → Key → Option Value
  | [], property => o.get? property
  | key :: path, property =>
    match o.get? key with
    | some (.obj inner) => if isConditional inner then none else place? inner path property
    | _ => none

/-- The value that a property has at a place outside of all conditions, if it is there and is no object. -/
def resting? (o : Object) (path : List Key) (property : Key) : Option Value :=
  (o.held? path property Key.default).filter fun value => !value.isNull && !value.isObject

end Object

/--
The value that holds outside of all conditions: a plain value, or the default of a conditional map unless it is
null.
-/
def given? (value? : Option Value) : Option Value :=
  (choose value? Key.default).filter fun value => !(value.isNull && value?.any Value.isObject)

theorem Distinct.of_get? {o : Object} (h : Distinct o) {key : Key} {inner : Object}
    (hget : o.get? key = some (.obj inner)) : Distinct inner := by
  induction h with
  | nil => cases hget
  | leaf hvalue _ _ ih =>
      rw [Object.get?_cons] at hget
      split at hget
      · cases hget
        cases hvalue
      · exact ih hget
  | nested hinner _ _ _ ih =>
      rw [Object.get?_cons] at hget
      split at hget
      · cases hget
        exact hinner
      · exact ih hget

end Restyle.Style

namespace Restyle.Lowering

open Restyle.Style (Key Value Object Regular Distinct choose given?)

/-! ## One entry -/

/-- The styles of a component with a body merged into them. -/
def raised (pseudo : Option String) (styles entries : Object) : Object :=
  entries.foldl (fun styles entry => raiseEntry pseudo styles entry.1 entry.2) styles

section

variable {nests : Key → Bool} {pseudo : Option String} {base body : Object} {key property condition : Key}
  {path : List Key} {value : Value}

/-- Whether a body gives a property a value under a condition, where its plain values are under its pseudo state. -/
def Sets (pseudo : Option String) (body : Object) (path : List Key) (property condition : Key) : Prop :=
  (body.held? path property condition).isSome ∨
    pseudo.map Key.name = some condition ∧ (given? (body.place? path property)).isSome

/--
What styles keep of a property at a place when a body is merged into them.  The resting value stays unless the
body gives another one, values under conditions stay unless the body sets the property under the same condition,
and all values of the body are there, those outside of conditions under the pseudo state if there is one.
-/
structure Keeps (pseudo : Option String) (base body merged : Object) (path : List Key) (property : Key) : Prop where
  rest : pseudo.isSome ∨ given? (body.place? path property) = none →
    merged.resting? path property = base.resting? path property
  branch : ∀ condition value, condition.isBranch = true → base.held? path property condition = some value →
    value.isObject = false → ¬ Sets pseudo body path property condition →
      merged.held? path property condition = some value
  given : ∀ value, pseudo = none → given? (body.place? path property) = some value → value.isObject = false →
    merged.held? path property Key.default = some value
  held : ∀ condition value, condition.isBranch = true → body.held? path property condition = some value →
    value.isObject = false → merged.held? path property condition = some value
  carried : ∀ p value, pseudo = some p → given? (body.place? path property) = some value →
    value.isObject = false → body.held? path property (.name p) = none →
      merged.held? path property (.name p) = some value

/--
When an object of the body leaves a property of the styles as it should: the styles rest where the body does,
or have a plain value that becomes the default, and the resting value of the body is there under the pseudo state.
-/
structure Overlays (pseudo : Option String) (base body : Object) (property : Key) : Prop where
  rest : pseudo.isSome ∨ given? (body.get? property) = none →
    base.resting? [] property = body.resting? [] property ∨
      given? (body.get? property) = none ∧ (body.get? property).any Value.isConditional = true ∧
        (base.get? property).any Value.isObject = false
  carried : ∀ p value, pseudo = some p → given? (body.get? property) = some value → value.isObject = false →
    body.held? [] property (.name p) = none → base.held? [] property (.name p) = some value

/--
When a body that takes the place of a property in a nested object leaves it as it should: the property rests
where the body does, the body sets all conditions that there are, and rests itself only without a pseudo state.
-/
structure Replaces (pseudo : Option String) (base body : Object) (path : List Key) (property : Key) : Prop where
  rest : pseudo.isSome ∨ given? (body.place? path property) = none →
    base.resting? path property = body.resting? path property
  branch : ∀ condition value, condition.isBranch = true → base.held? path property condition = some value →
    value.isObject = false → Sets pseudo body path property condition
  carried : ∀ p value, pseudo = some p → given? (body.place? path property) = some value →
    value.isObject = false → body.held? path property (.name p) ≠ none

/-- When a body spares a property that it covers; at the top, plain values always do. -/
def Spares (pseudo : Option String) (base body : Object) : List Key → Key → Prop
  | [], property => (body.get? property).any Value.isObject = true → Overlays pseudo base body property
  | key :: path, property => Replaces pseudo base body (key :: path) property

section

variable {merged map : Object} (hmap : map.isConditional = true) (hget : body.get? property = some (.obj map))

include hmap hget

end

end

/-! ## Selectors with raised weight -/

end Restyle.Lowering
