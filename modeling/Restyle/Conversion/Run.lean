import Restyle.Component.Build
import Restyle.Conversion.Emission
import Restyle.Lowering.Lower
import Restyle.Module.Unsupported

/-!
# Converting a module

A module is read and searched for declarations and for features that have no counterpart.  Its helpers
and components are built, their selectors are lowered, and the registry is put together; then the text
is edited.  What goes wrong in a part of the module is reported and leaves that part as it is.
-/

namespace Restyle.Conversion

open Restyle.Component (Building Plant Workshop)
open Restyle.Interpolation (Surroundings Traces)
open Restyle.Module (Declarations Findings HelperDeclaration Imports)
open Restyle.Style (Object)

/-- What slots of a module can refer to. -/
def surroundings (imports : Imports) (d : Declarations) : Surroundings :=
  { styled := d.styled.map (·.name)
    keyframes := d.keyframes.map (·.name)
    mixins := d.mixins.map (·.name)
    imports
    cssName := imports.libraryNames.get? "css" }

/-- What building the components of a module draws on. -/
def plant (p : Project) (m : Module) (imports : Imports) (d : Declarations) : Plant :=
  { env :=
      { adapter := p.adapter
        around := surroundings imports d
        stylesName := p.settings.stylesName
        mixinKeys := d.mixinKeys
        fallback := some p.settings.fallback }
    constants := Module.stringConstants m }

/-- The built helpers of a module, and the keys of the mixins that were converted. -/
structure Helpers where
  keyframes : Table Object := []
  mixins : Table Object := []
  mixinKeys : Table String

/-- The plant without the key of a mixin that could not be converted. -/
def withKeys (plant : Plant) (keys : Table String) : Plant :=
  { plant with env := { plant.env with mixinKeys := keys } }

/-- Builds a mixin; one that cannot be converted loses its key. -/
def addMixin (plant : Plant) (helpers : Helpers) (h : HelperDeclaration) : Building Helpers := do
  match ← Component.buildMixin? (withKeys plant helpers.mixinKeys) h with
  | none => return { helpers with mixinKeys := helpers.mixinKeys.erase h.name }
  | some styles =>
    match helpers.mixinKeys.get? h.name with
    | none => throw (.missingName h.name)
    | some key => return { helpers with mixins := helpers.mixins.set key styles }

/-- Builds an animation. -/
def addAnimation (plant : Plant) (helpers : Helpers) (h : HelperDeclaration) : Building Helpers := do
  match ← Component.buildFrames? plant h with
  | none => return helpers
  | some frames => return { helpers with keyframes := helpers.keyframes.set h.name frames }

/-- Builds the helpers of a module. -/
def buildHelpers (plant : Plant) (d : Declarations) : Building Helpers := do
  let helpers ← d.keyframes.foldlM (addAnimation plant) { mixinKeys := plant.env.mixinKeys }
  d.mixins.foldlM (addMixin plant) helpers

/-- Builds the components of a module; returns those that stay as they are as well. -/
def buildComponents (plant : Plant) (d : Declarations) (excluded : List String) :
    Building (Arena × List String) :=
  d.styled.foldlM
    (fun (arena, skipped) s => do
      if excluded.contains s.name then return (arena, skipped ++ [s.name])
      else
        match ← Component.build? plant s with
        | none => return (arena, skipped ++ [s.name])
        | some c => return (Table.set arena s.name c, skipped))
    ([], [])

/-- The imported names that can be components. -/
def importedComponents (imports : Imports) : List String :=
  (imports.byLocal.values.filter fun b =>
    b.source != Module.library && Text.startsUpper b.localName && !b.isTypeOnly).map (·.localName)

/-- A place to start building in. -/
def emptyWorkshop : Workshop :=
  { component := { name := "", styleKey := "", base := "" } }

/-- What remains of a conversion that edits in conflict have stopped. -/
def abandon (path reason : String) : Converting Verdict := do
  Converting.tell .error ("Conversion of " ++ path ++ " aborted: " ++ reason)
  Work.report { kind := .failedToParseExpression, severity := .error
                context := [("detail", .str reason)] }
  return { success := false }

/-- The helpers and components of a module before selectors are lowered. -/
structure Parts where
  helpers : Helpers
  arena : Arena
  skipped : List String
  /-- The imports that adapters asked for. -/
  requested : List Adapter.ImportSpec

/-- Builds the helpers and components of a module. -/
def buildParts (plant : Plant) (d : Declarations) (excluded : List String) : Converting Parts := do
  let (helpers, workshop) ←
    Work.phase "Helpers" "keyframes and css mixins"
      (Work.on emptyWorkshop (buildHelpers plant d))
  let ((arena, skipped), workshop) ←
    Work.phase "Conversion" "styled declarations"
      (Work.on workshop (buildComponents (withKeys plant helpers.mixinKeys) d excluded))
  return { helpers, arena, skipped, requested := workshop.traces.imports.specs }

/-- What lowering knows about a module. -/
def loweringSettings (p : Project) (imports : Imports) : Lowering.Settings :=
  { relationMarkers := p.settings.relationMarkers
    importedComponents := importedComponents imports }

/-- Converts the declarations of a module. -/
def convertDeclarations (p : Project) (m : Module) (imports : Imports) (d : Declarations)
    (findings : Findings) : Converting Verdict := do
  let parts ← buildParts (plant p m imports d) d findings.skipped
  let (_, arena) ← Work.on parts.arena (Lowering.lowerAll (loweringSettings p imports))
  let registry ←
    Work.phase "Aggregation" "stylex.create registry"
      (Work.ofExcept (Registry.ofComponents parts.helpers.mixins arena))
  let draft : Draft :=
    { source := m, imports, declarations := d, arena, mixinKeys := parts.helpers.mixinKeys
      keyframes := parts.helpers.keyframes, registry, requested := parts.requested }
  match ← draft.emit p with
  | .error conflict => abandon m.path conflict.message
  | .ok (code, failed) =>
    return {
      code := some code
      converted := arena.names.filter fun name => !failed.contains name
      skipped := parts.skipped ++ failed
      styleKeys := Table.names registry }

/-- Converts a module that has been read. -/
def convertModule (p : Project) (m : Module) : Converting Verdict := do
  if m.hasErrors then
    Work.report { kind := .failedToParseExpression, severity := .error
                  context := [("file", .str m.path)] }
    return { success := false }
  let imports := Imports.ofModule m
  let names := imports.libraryNames
  if names.isEmpty then return {}
  let d := Declarations.ofModule m names
  let findings := Module.findUnsupported m d names (← get).diagnostics
  modify fun s => { s with diagnostics := findings.diagnostics }
  if d.isEmpty then return { code := if findings.found then some m.text else none }
  if p.settings.isStrict && findings.found then
    Converting.tell .info ("Strict mode: leaving " ++ m.path ++ " untouched")
    return { skipped := d.styled.map (·.name) }
  convertDeclarations p m imports d findings

/-- Converts the text of a module. -/
def run (p : Project) (code path : String) : Except Fault Outcome :=
  let work : Converting Verdict := do
    Work.trace (·.startPhase "Transform" path)
    let verdict ← convertModule p (Module.read code path)
    Work.trace (·.endPhase)
    return verdict
  match work.run { store := [] } with
  | (.error f, _) => .error f
  | (.ok verdict, session) =>
    .ok { verdict with
      diagnostics := session.diagnostics.items
      trace := session.trace
      messages := session.store }

end Restyle.Conversion
