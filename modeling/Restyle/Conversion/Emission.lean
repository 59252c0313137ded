import Restyle.Conversion.Basic
import Restyle.Emit.CallSites
import Restyle.Emit.ImportBlock
import Restyle.Module.Declarations
import Restyle.Plan.Planner
import Restyle.Registry

/-!
# The converted text

The edits that turn a module into its converted form: declarations are removed or replaced, usages are
edited, the registry goes to the end and the import block is brought up to date.
-/

namespace Restyle.Conversion

open Restyle.Emit (CallSites ImportBlock WrapperNeeds WrapperStyle)
open Restyle.Module (Declarations Edit HelperDeclaration Imports)
open Restyle.Style (Object)
open Restyle.Tsx (Node)

/-- What is known about a module whose components have been built and lowered. -/
structure Draft where
  source : Module
  imports : Imports
  declarations : Declarations
  arena : Arena
  /-- The registry keys of the mixins that were converted. -/
  mixinKeys : Table String
  keyframes : Table Object
  registry : Registry
  /-- The imports that adapters asked for. -/
  requested : List Adapter.ImportSpec

/-- Edits, and the statements that they take away. -/
structure StatementEdits where
  edits : List Edit := []
  taken : List Node := []

namespace StatementEdits

/-- Both. -/
def append (a b : StatementEdits) : StatementEdits :=
  { edits := a.edits ++ b.edits, taken := a.taken ++ b.taken }

/-- Removes a statement. -/
def removal (m : Module) (statement : Node) : StatementEdits :=
  let (start, stop) := Module.statementRange m.bytes statement.start statement.stop
  { edits := [Edit.deletion start stop], taken := [statement] }

/-- Puts a text in the place of a statement. -/
def replacement (statement : Node) (text : String) : StatementEdits :=
  { edits := [{ start := statement.start, stop := statement.stop, text }], taken := [statement] }

end StatementEdits

/-- The edits for the declarations of components. -/
structure ComponentEdits where
  statements : StatementEdits := {}
  /-- The plans that were carried out. -/
  plans : Table ComponentPlan := []
  needs : WrapperNeeds := {}
  /-- The components whose replacement cannot be read back. -/
  failed : List String := []

namespace Draft

/-- The usages of the components. -/
def usages (d : Draft) : List Module.Usage :=
  Module.usagesOf d.source d.arena.names

/-- The plans of the components. -/
def plans (p : Project) (d : Draft) : Table ComponentPlan :=
  let statements := (d.declarations.styled.filter fun s => d.arena.has s.name).map (·.statement)
  let usages := d.usages
  let refs := Module.valueReferences d.source d.arena.names statements
  let facts :=
    { Plan.UsageFacts.ofUsages usages refs with
      styleReceivers := Emit.styleReceivers d.arena usages }
  Plan.planAll
    { facts, summaries := p.summaries, path := d.source.path
      stylesName := p.settings.stylesName, library := libraryName }
    d.arena

/-- How function components are written. -/
def wrapperStyle (p : Project) (d : Draft) : WrapperStyle :=
  { library := libraryName, isTyped := d.source.isTyped, merger := p.styleMerger
    reserved := d.source.declaredTypes }

/-- The statement of the last declaration of a component. -/
def statement? (d : Draft) (name : String) : Option Node :=
  (d.declarations.styled.reverse.find? fun s => s.name == name).map (·.statement)

/-- Carries out the plan of a component. -/
def carryOut (p : Project) (d : Draft) (done : ComponentEdits) (name : String)
    (plan : ComponentPlan) : Converting ComponentEdits := do
  match d.statement? name with
  | none => throw (.missingName name)
  | some statement =>
    if plan.isInline then
      return { done with
        statements := done.statements.append (.removal d.source statement)
        plans := done.plans.set name plan }
    else
      let wrapper := Emit.wrapper (d.wrapperStyle p) plan
      let needs := done.needs.join wrapper.needs
      if wrapper.isReadable then
        return { done with
          statements := done.statements.append (.replacement statement wrapper.text)
          plans := done.plans.set name plan
          needs }
      else
        Converting.tell .warning (Emit.unreadable name)
        Work.report { kind := .failedToParseExpression, location := plan.component.location
                      context := [("component", .str name)] }
        return { done with needs, failed := done.failed ++ [name] }

/-- Carries out all plans. -/
def carryOutAll (p : Project) (d : Draft) (plans : Table ComponentPlan) :
    Converting ComponentEdits :=
  plans.foldlM (fun done (name, plan) => d.carryOut p done name plan) {}

/-- How the registry is written. -/
def dialect (p : Project) (d : Draft) : Registry.Dialect :=
  { library := libraryName, stylesName := p.settings.stylesName, isTyped := d.source.isTyped }

/-- The edit for the declaration of an animation. -/
def animationEdits (p : Project) (d : Draft) (h : HelperDeclaration) :
    Except Fault StatementEdits :=
  match d.keyframes.get? h.name with
  | none => .ok {}
  | some frames => do
    let text ← (d.dialect p).keyframes h.name frames
    return .replacement h.statement ((if h.isExported then "export " else "") ++ text)

/-- The edits for the declarations of animations and mixins. -/
def helperEdits (p : Project) (d : Draft) : Except Fault StatementEdits := do
  let animations ← d.declarations.keyframes.mapM (d.animationEdits p)
  let mixins := (d.declarations.mixins.filter fun h => d.mixinKeys.has h.name && !h.isExported).map
    fun h => .removal d.source h.statement
  return (animations ++ mixins).foldl StatementEdits.append {}

/-- The edit that adds the registry. -/
def registryEdits (d : Draft) (text : String) : List Edit :=
  if text.isEmpty then []
  else
    let lead := if Text.hasTail "\n" d.source.text then "\n" else "\n\n"
    [Edit.insertion d.source.bytes.length (lead ++ text ++ "\n") 10]

/-- The imports that the converted module needs. -/
def neededImports (p : Project) (d : Draft) (needsLibrary : Bool) (needs : WrapperNeeds) :
    List Adapter.ImportSpec :=
  (if needsLibrary then [Emit.wholeImport p.settings.libraryModule libraryName] else []) ++
    (if needs.reactTypes && (d.imports.lookup "React").isNone then
      [Emit.wholeImport "react" "React"]
    else []) ++
    (if needs.merger then
      p.styleMerger.toList.map fun m => Emit.namedImport m.importSource m.functionName
    else []) ++
    d.requested

/-- The names of the styling library that are used outside of the statements taken away. -/
def keptNames (d : Draft) (taken : List Node) : List String :=
  let skip := taken ++ d.imports.statements.map (·.node)
  Module.valueReferences d.source d.imports.libraryNames.values skip

/--
The converted text, and the components that stay as they are after all; there is none where edits are in
conflict.
-/
def emit (p : Project) (d : Draft) :
    Converting (Except Module.EditFault (String × List String)) := do
  let plans := d.plans p
  Work.trace (Plan.notePlans plans)
  let components ←
    Work.phase "Wrappers" "declaration replacement" (d.carryOutAll p plans)
  let helpers ← Work.ofExcept (d.helperEdits p)
  let statements := components.statements.append helpers
  let sites : CallSites :=
    { plans := components.plans, usages := d.usages, root := d.source.root
      library := libraryName, stylesName := p.settings.stylesName }
  let callEdits ← Work.phase "Call sites" "JSX rewrites" (pure sites.edits)
  let text ← Work.ofExcept ((d.dialect p).declaration d.registry)
  let needsLibrary :=
    !text.isEmpty || !d.keyframes.isEmpty || components.needs.library || sites.needsLibrary
  let specs := d.neededImports p needsLibrary components.needs
  let block : ImportBlock :=
    { source := d.source, imports := d.imports, keep := d.keptNames statements.taken }
  let (importEdits, notes) :=
    block.edits (specs.flatMap (Emit.bindingsOf p.directory d.source.path))
  Work.trace (ImportBlock.note notes)
  let edits := statements.edits ++ callEdits ++ d.registryEdits text ++ importEdits
  return (Edit.applyAll d.source.bytes edits).map fun code => (code, components.failed)

end Draft

end Restyle.Conversion
