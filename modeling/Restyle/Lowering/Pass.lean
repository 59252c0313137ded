import Restyle.Component.Basic
import Restyle.Lowering.Selector
import Restyle.Session

/-!
# Passes

A pass knows one family of raw selectors.  It turns a selector of a component into entries that need no
selector, or leaves it to later passes.  What a pass has taken care of is removed from the styles once
all selectors of the component have been looked at.
-/

namespace Restyle.Lowering

open Restyle.Style (Key Value Object)

/-- What passes know about the module. -/
structure Settings where
  /-- Whether relations may be expressed by markers. -/
  relationMarkers : Bool := true
  /-- Components that come from other modules. -/
  importedComponents : List String := []

/-- A lowered selector: the changed component, what there is to report, and why lowering breaks off. -/
structure Lowered where
  component : Component
  reports : List Diagnostic := []
  fault : Option Fault := none

namespace Lowered

/-- A report about a selector of a component. -/
def diagnostic (kind : DiagnosticKind) (c : Component) (selector : String) : Diagnostic :=
  { kind, location := c.location
    context := [("component", .str c.name), ("selector", .str selector)] }

/-- Adds a report about a selector. -/
def report (l : Lowered) (kind : DiagnosticKind) (selector : String) : Lowered :=
  { l with reports := l.reports ++ [diagnostic kind l.component selector] }

end Lowered

/-- A family of selectors; `lower?` gives `none` for selectors of other families. -/
structure Pass where
  name : String
  lower? : Settings → Arena → Component → String → Object → Option Lowered
  /-- What is left to do once all components have been visited. -/
  finish : Arena → Except Fault (Arena × List (String × String × String)) := fun a => .ok (a, [])

/-- Work on the components of a module. -/
abbrev Work := Restyle.Work Arena

/-- The body of a selector as it stands now, if it is still a body. -/
def currentBody (c : Component) (selector : String) (body : Object) : Object :=
  match Object.get? c.styles (.name selector) with
  | some (.obj o) => if Object.isConditional o then body else o
  | _ => body

/-- Lowers the selectors of one component and returns those that have been taken care of. -/
def lowerSelectors (pass : Pass) (settings : Settings) (name : String) :
    List (String × Object) → Work (List String)
  | [] => return []
  | (selector, body) :: rest => do
    let arena ← Work.store
    match arena.get? name with
    | none => return []
    | some c =>
      match pass.lower? settings arena c selector (currentBody c selector body) with
      | none => lowerSelectors pass settings name rest
      | some lowered =>
        lowered.fault.forM throw
        Work.update fun a => a.set name lowered.component
        lowered.reports.forM Work.report
        Work.trace (·.lowering pass.name c.name selector)
        return selector :: (← lowerSelectors pass settings name rest)

/-- Removes entries from styles. -/
def eraseAll (styles : Object) (selectors : List String) : Object :=
  selectors.foldl (fun o s => Object.erase o (.name s)) styles

/-- Runs a pass on one component. -/
def runOn (pass : Pass) (settings : Settings) (name : String) : Work Unit := do
  match (← Work.store).get? name with
  | none => return
  | some c =>
    let done ← lowerSelectors pass settings name (rawSelectors c.styles)
    Work.update fun a =>
      Table.modify a name fun c => { c with styles := eraseAll c.styles done }

/-- Runs a pass on all components. -/
def Pass.run (pass : Pass) (settings : Settings) : Work Unit := do
  (← Work.store).names.forM (runOn pass settings)
  match pass.finish (← Work.store) with
  | .error f => throw f
  | .ok (arena, notes) =>
    Work.update fun _ => arena
    notes.forM fun (subject, outcome, detail) =>
      Work.trace (·.inspection subject outcome detail)

end Restyle.Lowering
