import Restyle.Module.Usage

/-!
# Facts about usages

What a module reveals about its components by using them.
-/

namespace Restyle.Plan

open Restyle.Module (Usage)

/-- What is known about the usages of components. -/
structure UsageFacts where
  /-- Components that are rendered as something else. -/
  asUsed : List String := []
  /-- Components that are given styles from outside. -/
  externalStyling : List String := []
  /-- Components whose names are used as values. -/
  valueRefs : List String := []
  /-- Components that get styles from the rules of other components. -/
  styleReceivers : List String := []
  /-- Props with dollar signs that are passed to components. -/
  transientProps : Table (List String) := []

namespace UsageFacts

/-- Adds a name to a list that lacks it. -/
def addTo (names : List String) (name : String) : List String :=
  if names.contains name then names else names ++ [name]

/-- Takes one usage into account. -/
def addUsage (f : UsageFacts) (u : Usage) : UsageFacts :=
  let has (name : String) : Bool := (u.attribute? name).isSome
  let dollars := u.attributes.filterMap fun a => a.name.filter fun n => Text.hasLead "$" n
  { f with
    asUsed := if has "as" || has "forwardedAs" then addTo f.asUsed u.name else f.asUsed
    externalStyling :=
      if u.hasSpread || has "className" || has "style" then addTo f.externalStyling u.name
      else f.externalStyling
    transientProps :=
      if dollars.isEmpty then f.transientProps
      else
        f.transientProps.set u.name
          (dollars.foldl addTo ((f.transientProps.get? u.name).getD [])) }

/-- The facts that usages reveal. -/
def ofUsages (usages : List Usage) (valueRefs : List String) : UsageFacts :=
  usages.foldl addUsage { valueRefs := valueRefs }

end UsageFacts

end Restyle.Plan
