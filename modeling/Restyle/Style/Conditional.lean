import Restyle.Style.Merge

/-!
# Conditions at the level of properties

A block of properties under a condition is folded into the properties: each gets a conditional map
from conditions to values.  Maps do not nest; a block under a condition inside another condition is
dropped, and its place is returned for a report.
-/

namespace Restyle.Style

/-- A key with an object that has to be folded into the properties. -/
def isConditionBlock (key : Key) (entries : Object) : Bool :=
  key != Key.default && key.isCondition && !Object.isConditional entries

/-- Gives a property a value under a condition; a plain value becomes the default. -/
def setCondition (result : Object) (property condition : Key) (value : Value) : Object :=
  match result.get? property with
  | some (.obj o) =>
    if Object.isConditional o then result.set property (.obj (Object.set o condition value))
    else result.set property (.obj (Object.set [(Key.default, .obj o)] condition value))
  | some plain => result.set property (.obj (Object.set [(Key.default, plain)] condition value))
  | none => result.set property (.obj (Object.set [(Key.default, .null)] condition value))

/-- Folds the entries of one condition block into a result; nested objects are dropped and named. -/
def foldBlock (condition : Key) (result : Object) : Object → Object × List String
  | [] => (result, [])
  | (property, .obj _) :: rest =>
    let (result, dropped) := foldBlock condition result rest
    (result, (condition.text ++ " " ++ property.text) :: dropped)
  | (property, value) :: rest => foldBlock condition (setCondition result property condition value) rest

/-- Adds the conditional map of a property: a plain value already there fills an absent default. -/
def setMap (result : Object) (key : Key) (map : Object) : Object :=
  let merged :=
    match result.get? key with
    | none => map
    | some existing =>
      if existing.isConditional then map
      else
        match Object.get? map Key.default with
        | some .null => Object.set map Key.default existing
        | _ => map
  result.set key (.obj merged)

/-- Adds a plain value: an existing conditional map keeps its conditions. -/
def setPlain (result : Object) (key : Key) (value : Value) : Object :=
  match result.get? key with
  | some (.obj o) =>
    if Object.isConditional o then result.set key (.obj (Object.set o Key.default value))
    else result.set key value
  | _ => result.set key value

/-- Adds a flattened nested object: it is merged into an object already there. -/
def setNested (result : Object) (key : Key) (nested : Object) : Object :=
  match result.get? key with
  | some (.obj o) => result.set key (.obj (Object.merge o nested))
  | _ => result.set key (.obj nested)

mutual

/--
Folds the condition blocks of an object, and of the objects in it, into property-level conditional
maps.  Returns the folded object and the places of the dropped blocks in order.
-/
def flattenFrom (result : Object) : Object → Object × List String
  | [] => (result, [])
  | (key, value) :: rest =>
    match value with
    | .obj entries =>
      if isConditionBlock key entries then
        let (result, dropped) := foldBlock key result entries
        let (result, more) := flattenFrom result rest
        (result, dropped ++ more)
      else if Object.isConditional entries then flattenFrom (setMap result key entries) rest
      else
        let (nested, dropped) := flattenValue value
        let (result, more) := flattenFrom (setNested result key nested) rest
        (result, dropped ++ more)
    | _ => flattenFrom (setPlain result key value) rest

/-- Folds the condition blocks of an object that stands in another one. -/
def flattenValue : Value → Object × List String
  | .obj entries => flattenFrom [] entries
  | _ => ([], [])

end

/-- The object with property-level conditions, and the places of the blocks it had to drop. -/
def flatten (o : Object) : Object × List String :=
  flattenFrom [] o

mutual

/-- Whether some conditional map of an object holds an object. -/
def hasNestedConditionals : Object → Bool
  | [] => false
  | (_, value) :: rest => nestsConditionals value || hasNestedConditionals rest

/-- Whether a value is, or holds, a conditional map with an object in it. -/
def nestsConditionals : Value → Bool
  | .obj entries =>
    if Object.isConditional entries then entries.any fun (_, v) => v.isObject
    else hasNestedConditionals entries
  | _ => false

end

end Restyle.Style
