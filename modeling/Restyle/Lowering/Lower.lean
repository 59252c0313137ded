import Restyle.Lowering.Passes

/-!
# Lowering all selectors

The passes run one after the other.  Selectors that none of them knows are reported and dropped.
-/

namespace Restyle.Lowering

/-- Why a selector could not be lowered. -/
def leftoverReason (selector : String) (known imported : List String) : DiagnosticKind :=
  let refs := componentRefs selector
  let has (text : String) : Bool := Text.mentions text selector
  if !refs.isEmpty then
    if refs.all fun r => known.contains r || imported.contains r then .componentSelector
    else .selectorUnknownComponent
  else if has "," then .selectorComma
  else if has "*" then .universalSelector
  else if has "+" || has "~" then .selectorSibling
  else if has " :" then .selectorDescendantPseudo
  else if has ">" || Text.mentions " " (Text.strip selector) then .selectorCombinator
  else if has "." then .selectorClass
  else .complexSelector

/-- Reports and drops the selectors of a component that are left. -/
def dropLeftovers (settings : Settings) (name : String) : Work Unit := do
  let arena ← Work.store
  match arena.get? name with
  | none => return
  | some c =>
    let selectors := (rawSelectors c.styles).map (·.1)
    for selector in selectors do
      let kind := leftoverReason selector arena.names settings.importedComponents
      Work.report (Lowered.diagnostic kind c selector)
    Work.update fun a =>
      Table.modify a name fun c => { c with styles := eraseAll c.styles selectors }

/-- Lowers the selectors of all components. -/
def lowerAll (settings : Settings) : Work Unit := do
  for pass in allPasses do
    Work.trace (·.startPhase ("lower:" ++ pass.name) ("Selector lowering pass '" ++ pass.name ++ "'"))
    pass.run settings
    Work.trace (·.endPhase)
  (← Work.store).names.forM (dropLeftovers settings)

end Restyle.Lowering
