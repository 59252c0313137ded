import Restyle.Css.Sheet

/-!
# Style templates

A style template alternates literal segments and interpolated expressions.  It is read as a style
sheet with slot marks, and for every slot the place is recorded where its mark ended up: a selector,
a property name or a value, with the rule around it.
-/

namespace Restyle.Css

/-- Where a slot stands in a rule tree. -/
structure SlotPlace where
  selector : String
  atRules : List String := []
  property : Option String := none
  value : String := ""
  inSelector : Bool := false
  inPropertyName : Bool := false
  isFullValue : Bool := false
  deriving DecidableEq, Repr

/-- A slot that reached the rule tree, with its expression. -/
structure PlacedSlot (α : Type) where
  index : Nat
  expression : α
  place : SlotPlace

/-- The places of the slots of one declaration under `selector`. -/
def declarationPlaces (selector : String) (atRules : List String) (d : Declaration) :
    List (Nat × SlotPlace) :=
  let inName := (Slot.indices d.property).map fun index =>
    (index, { selector, atRules, property := some d.property, value := d.value,
              inPropertyName := true })
  let inValue := (Slot.indices d.value).map fun index =>
    (index, { selector, atRules, property := if d.property.isEmpty then none else some d.property,
              value := d.value,
              isFullValue := Text.strip d.value == Slot.markText index })
  inName ++ inValue

mutual

/-- The places of all slots of a rule tree; `selector` is the nearest one that is no at-rule. -/
def placesIn (selector : String) : Rule → List (Nat × SlotPlace)
  | ⟨own, declarations, nested, atRules⟩ =>
    (Slot.indices own).map (fun index => (index, { selector := own, atRules, inSelector := true })) ++
      declarations.flatMap (declarationPlaces selector atRules) ++ placesInAll selector nested

/-- The places of the slots of nested rules. -/
def placesInAll (selector : String) : List Rule → List (Nat × SlotPlace)
  | [] => []
  | rule :: rules =>
    placesIn (if isAtRule rule.selector then selector else rule.selector) rule ++
      placesInAll selector rules

end

/-- Keeps the first place of every slot that has an expression. -/
def placeSlots {α : Type} (expressions : List α) (places : List (Nat × SlotPlace)) :
    List (PlacedSlot α) :=
  (places.foldl
    (fun found (index, place) =>
      if found.any (·.index == index) then found
      else
        match expressions[index]? with
        | some expression => ⟨index, expression, place⟩ :: found
        | none => found)
    []).reverse

/-- A rule tree with the slots found in it, in order of appearance. -/
structure Template (α : Type) where
  root : Rule
  slots : List (PlacedSlot α)

namespace Template

variable {α : Type}

/-- The slot with a given index, if it reached the rule tree. -/
def slot? (t : Template α) (index : Nat) : Option (PlacedSlot α) :=
  t.slots.find? (·.index == index)

/-- The slots among the first `count` that never reached the rule tree. -/
def unplaced (t : Template α) (count : Nat) : List Nat :=
  (List.range count).filter fun index => (t.slot? index).isNone

/-- Reads the segments and expressions of a template. -/
def read (segments : List String) (expressions : List α) : Except SyntaxFault (Template α) := do
  let root ← parseSheet (Slot.join segments)
  return { root, slots := placeSlots expressions (placesIn root.selector root) }

end Template

end Restyle.Css
