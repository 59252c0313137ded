import Restyle.Cli.Arguments
import Restyle.Cli.World
import Restyle.Config
import Restyle.Conversion.Run
import Restyle.Data.Json
import Restyle.Journal
import Restyle.Toml.Document

/-!
# Commands

The program converts the modules of a file or a directory, or reports what a conversion would say about
them.
-/

namespace Restyle.Cli

open Restyle.Conversion (Level Outcome Project)

/-- Why a command breaks off. -/
inductive Fault where
  | config (f : Config.Fault)
  | conversion (f : Restyle.Fault)
  | file (f : FileFault)

section

variable {m : Type → Type} [Monad m]

/-- Steps of a command. -/
abbrev Steps (m : Type → Type) := ExceptT Fault m

/-- Shows something to the user. -/
def World.tell (w : World m) (level : Level) (text : String) : Steps m Unit :=
  ExceptT.lift (w.display (.log level text))

/-- Reports a success. -/
def World.cheer (w : World m) (text : String) : Steps m Unit :=
  w.tell .success ("[success]" ++ text ++ "[/success]")

/-- Whether a path leads to a file or a directory. -/
def World.isPresent (w : World m) (p : Path) : m Bool := do
  if ← w.isFile p then return true else w.isDirectory p

/-! ## The project -/

/-- The name of settings files. -/
def settingsFile : String := "pyproject.toml"

/-- A directory and those around it, from the inside out. -/
def surrounding (p : Path) : List Path :=
  (List.range (p.names.length + 1)).map fun n =>
    { p with names := p.names.take (p.names.length - n) }

/-- The first settings file in some directories. -/
def findSettings (w : World m) : List Path → m (Option Path)
  | [] => return none
  | p :: rest => do
    if ← w.isFile { p with names := p.names ++ [settingsFile] } then return some p
    else findSettings w rest

/-- Loads the configuration that holds at a place. -/
def loadConfig (w : World m) (place : Path) (o : Config.Overrides) :
    m (Except Config.Fault Config) := do
  let place := (w.directory.below place).collapse
  let start := if ← w.isFile place then place.parent else place
  match ← findSettings w (surrounding start) with
  | none => return Config.ofDocument w.directory none o
  | some directory =>
    match ← w.read { directory with names := directory.names ++ [settingsFile] } with
    | .error _ => return Config.ofDocument directory none o
    | .ok text => return Config.ofDocument directory (Toml.read? text) o

/-- Loads an adapter; a failure is a message. -/
def loadAdapter (w : World m) (path : Path) : m (Except String Interpolation.ProjectAdapter) := do
  if !(← w.isPresent path) || path.suffix != ".py" then
    return .error ("Adapter file not found: " ++ path.text)
  match ← w.adapterAt path with
  | .declared adapter => return .ok adapter
  | .undefined =>
    return .error ("Adapter module " ++ path.name ++ " does not define \x60adapter\x60")
  | .incomplete =>
    return .error
      ("\x60adapter\x60 in " ++ path.name ++ " must define resolve_value and resolve_call")
  | .broken reason => return .error ("Failed to load adapter " ++ path.name ++ ": " ++ reason)

/-- Loads usage summaries; a failure is a message. -/
def loadSummaries (w : World m) (path : Path) : m (Except String Plan.Summaries) := do
  let unreadable (reason : String) : Except String Plan.Summaries :=
    .error ("Cannot read prepass file " ++ path.text ++ ": " ++ reason)
  match ← w.read path with
  | .error f => return unreadable f.message
  | .ok text =>
    match Data.ofJson? text with
    | none => return unreadable "Expecting value: line 1 column 1 (char 0)"
    | some (.obj fields) =>
      match Plan.Summaries.ofData? (.obj fields) with
      | some summaries => return .ok summaries
      | none => return .error "Invalid prepass summary"
    | some _ =>
      return .error ("Prepass file " ++ path.text ++ " must contain a JSON object")

/-- Loads a project; a failure is a message. -/
def loadProject (w : World m) (c : Config) : m (Except String Project) := do
  let adapter ←
    match c.adapterPath with
    | some path => loadAdapter w (Path.ofText path)
    | none => pure (.ok {})
  match adapter with
  | .error message => return .error message
  | .ok adapter =>
    let project : Project :=
      { settings := c.settings, adapter, directory := w.directory.text }
    match c.prepassPath with
    | none => return .ok project
    | some path =>
      match ← loadSummaries w (Path.ofText path) with
      | .error message => return .error message
      | .ok summaries => return .ok { project with summaries := some summaries }

/-- Loads the project at a place; a failure is told. -/
def openProject (w : World m) (place : Path) (o : Config.Overrides) :
    Steps m (Option Project) := do
  let search := if ← w.isDirectory place then place else place.parent
  match ← ExceptT.lift (loadConfig w search o) with
  | .error f => throw (.config f)
  | .ok config =>
    match ← ExceptT.lift (loadProject w config) with
    | .error message =>
      w.tell .error ("Failed to initialize engine: " ++ message)
      return none
    | .ok project => return some project

/-! ## Modules of a directory -/

/-- The ends of the names of modules. -/
def moduleSuffixes : List String := [".tsx", ".ts", ".jsx", ".js"]

/-- Whether a file is a module that can be converted. -/
def isModule (p : Path) : Bool :=
  moduleSuffixes.contains p.suffix && !Text.hasTail ".d.ts" p.name &&
    !p.names.contains "node_modules"

/-- The order of paths: name by name. -/
def namesBefore : List String → List String → Bool
  | [], _ => true
  | _ :: _, [] => false
  | a :: as, b :: bs => if a == b then namesBefore as bs else a < b

/-- The modules below a directory in order, as paths from there. -/
def modulesBelow (w : World m) (directory : Path) : m (List Path) := do
  let files ← w.filesBelow directory
  return (files.filter fun p => isModule (directory.below p)).mergeSort fun a b =>
    namesBefore a.names b.names

/-! ## Converting -/

/-- Converts a module and passes on what there is to tell. -/
def convertText (w : World m) (project : Project) (code : String) (path : Path) :
    Steps m Outcome := do
  match Conversion.run project code path.text with
  | .error f => throw (.conversion f)
  | .ok outcome =>
    for message in outcome.messages do
      w.tell message.level message.text
    return outcome

/-- Writes the trace of a conversion. -/
def writeTrace (w : World m) (path : Path) (t : Trace) : Steps m Unit := do
  match ← w.write path t.toData.toJson with
  | .ok _ => w.tell .info ("Trace saved to [path]" ++ path.text ++ "[/path]")
  | .error f => w.tell .error ("Failed to write trace: " ++ f.message)

/-- Reads a module; carriage returns, with a line break after them or not, count as line breaks. -/
def World.readModule (w : World m) (p : Path) : m (Except FileFault String) := do
  return (← w.read p).map fun text => Text.replace "\r" "\n" (Text.replace "\r\n" "\n" text)

/-- Converts one file. -/
def convertFile (w : World m) (project : Project) (dryRun : Bool) (source : Path)
    (target tracePath : Option Path) : Steps m Outcome := do
  match ← w.readModule source with
  | .error f =>
    w.tell .error ("Failed to read " ++ source.text ++ ": " ++ f.message)
    return { success := false }
  | .ok code =>
    let outcome ← convertText w project code source
    tracePath.forM fun p => writeTrace w p outcome.trace
    for d in outcome.diagnostics do
      w.display (.print ("  " ++ d.text source.text))
    match outcome.code with
    | none => return outcome
    | some code =>
      if !outcome.success then return outcome
      if dryRun then
        w.tell .info ("Dry run: [path]" ++ source.text ++ "[/path]")
        w.display (.output (code ++ "\n"))
        return outcome
      let destination := target.getD source
      match ← w.write destination code with
      | .error f => throw (.file f)
      | .ok _ =>
        w.cheer ("Migrated: [path]" ++ source.text ++ "[/path] -> [path]" ++ destination.text ++
          "[/path]")
        return outcome

/-- Whether there is nothing to say about a conversion. -/
def isClean (o : Outcome) : Bool := o.success && o.diagnostics.isEmpty

/-- The word for what became of a module. -/
def statusOf (o : Outcome) : String :=
  if !o.success then "Failed" else if o.changed then "Partial" else "Untouched"

/-- Sums up conversions. -/
def summarize (w : World m) (results : Table Outcome) : Steps m Unit := do
  let total := results.length
  let changed := (results.filter fun (_, o) => o.changed).length
  let troubled := results.filter fun (_, o) => !isClean o
  if troubled.isEmpty then
    w.cheer ("Batch Complete: " ++ toString changed ++ "/" ++ toString total ++
      " files migrated without diagnostics.")
  else
    w.display (.table "Migration Report" ["File", "Status", "Skipped", "Diagnostics"]
      (troubled.map fun (name, o) =>
        [name, statusOf o, ", ".intercalate o.skipped, toString o.diagnostics.length]))
    w.display (.print ("\n[bold]Summary:[/bold] " ++ toString changed ++ " of " ++ toString total ++
      " files migrated, " ++ toString troubled.length ++ " with issues."))

/-- The exit code of conversions. -/
def exitCode (results : Table Outcome) : Nat :=
  if results.all fun (_, o) => o.success then 0 else 1

/-- Where the trace of one module of a directory goes. -/
def tracePathOf (requested file : Path) : Path :=
  requested.parent.below { names := [Text.replace "/" "_" file.text ++ ".trace.json"] }

/-- Converts the modules of a directory. -/
def convertDirectory (w : World m) (project : Project) (o : ConvertOptions) (directory : Path) :
    Steps m Nat := do
  let files ← ExceptT.lift (modulesBelow w directory)
  if files.isEmpty then
    w.tell .warning ("No source files found in " ++ directory.text)
    return 0
  w.tell .info ("Processing " ++ toString files.length ++ " files from " ++ directory.text ++ "...")
  let mut results : Table Outcome := []
  for file in files do
    let target := o.out.map fun out => (Path.ofText out).below file
    let trace := o.jsonTrace.map fun t => tracePathOf (Path.ofText t) file
    let outcome ← convertFile w project o.dryRun (directory.below file) target trace
    results := results.set file.text outcome
  summarize w results
  return exitCode results

/-- Carries out `convert`. -/
def convert (w : World m) (o : ConvertOptions) : Steps m Nat := do
  let source := Path.ofText o.path
  if !(← w.isPresent source) then
    w.tell .error ("Input not found: " ++ source.text)
    return 1
  let overrides : Config.Overrides :=
    { adapterPath := o.adapter, prepassPath := o.prepass, fallback := o.fallback
      strict := if o.strict then some (.bool true) else none }
  match ← openProject w source overrides with
  | none => return 1
  | some project =>
    if ← w.isFile source then
      let outcome ← convertFile w project o.dryRun source (o.out.map Path.ofText)
        (o.jsonTrace.map Path.ofText)
      let results : Table Outcome := [(source.name, outcome)]
      summarize w results
      return exitCode results
    else convertDirectory w project o source

/-! ## Scanning -/

/-- The row of a diagnostic. -/
def rowOf (file : Path) (d : Diagnostic) : List String :=
  let place :=
    match d.location with
    | some l => file.text ++ ":" ++ toString l.line ++ ":" ++ toString l.column
    | none => file.text
  [place, d.severity.text, d.category.text, d.kind.message]

/-- The rows of one file. -/
def scanFile (w : World m) (project : Project) (file : Path) : Steps m (List (List String)) := do
  match ← w.readModule file with
  | .error f =>
    w.tell .error ("Failed to read " ++ file.text ++ ": " ++ f.message)
    return []
  | .ok code =>
    let outcome ← convertText w project code file
    return outcome.diagnostics.map (rowOf file)

/-- Carries out `scan`. -/
def scan (w : World m) (path : String) (adapter : Option String) : Steps m Nat := do
  let source := Path.ofText path
  if !(← w.isPresent source) then
    w.tell .error ("Path not found: " ++ source.text)
    return 1
  match ← openProject w source { adapterPath := adapter } with
  | none => return 1
  | some project =>
    let files ←
      if ← w.isFile source then pure [source]
      else do
        let below ← ExceptT.lift (modulesBelow w source)
        pure (below.map source.below)
    w.tell .info ("Scanning " ++ toString files.length ++ " files...")
    let rows := (← files.mapM (scanFile w project)).flatten
    if rows.isEmpty then
      w.cheer ("No diagnostics in " ++ toString files.length ++ " files.")
      return 0
    w.display (.table "Migration Diagnostics" ["Location", "Severity", "Category", "Message"] rows)
    w.display (.print ("\n[bold]Total:[/bold] " ++ toString rows.length ++ " diagnostics."))
    return 1

/-- Carries out what arguments ask for and gives the exit code. -/
def run (w : World m) (args : List String) : Steps m Nat := do
  match readRequest true args with
  | .invalid => return 2
  | .display text =>
    w.display (.output text)
    return 0
  | .run (.convert o) => convert w o
  | .run (.scan path adapter) => scan w path adapter

end

end Restyle.Cli
