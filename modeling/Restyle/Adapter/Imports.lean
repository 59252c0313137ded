import Restyle.Data.Check
import Restyle.Path

/-!
# Requested imports

Adapters may ask for imports.  Requests for the same module are merged, in the order of the first
request.
-/

namespace Restyle.Adapter

/-- How a module to import from is given. -/
inductive SourceKind where
  | absolutePath
  | specifier
  deriving DecidableEq, Repr

/-- The word for a kind of source. -/
def SourceKind.text : SourceKind → String
  | .absolutePath => "absolutePath"
  | .specifier => "specifier"

/-- A module to import from. -/
structure ImportSource where
  kind : SourceKind := .specifier
  value : String
  deriving DecidableEq, Repr

/-- An exported name and the local name for it. -/
structure ImportName where
  imported : String
  localName : Option String := none
  deriving DecidableEq, Repr

/-- The name that is bound. -/
def ImportName.binding (n : ImportName) : String :=
  match n.localName with
  | some name => if name.isEmpty then n.imported else name
  | none => n.imported

/-- An import that is asked for. -/
structure ImportSpec where
  source : ImportSource
  names : List ImportName := []
  wholeName : Option String := none
  deriving DecidableEq, Repr

/-- Checks the kind of a source. -/
def SourceKind.ofData? : Data → Option SourceKind
  | .str "absolutePath" => some .absolutePath
  | .str "specifier" => some .specifier
  | _ => none

/-- Checks a source. -/
def ImportSource.ofData? (d : Data) : Option ImportSource := do
  let fields ← d.fields?
  let kind ← Data.defaulted? fields ["kind"] .specifier SourceKind.ofData?
  let value ← Data.required? fields ["value"] Data.str?
  return { kind := kind, value := value }

/-- Checks a name. -/
def ImportName.ofData? (d : Data) : Option ImportName := do
  let fields ← d.fields?
  let imported ← Data.required? fields ["imported"] Data.str?
  let localName ← Data.defaulted? fields ["local"] none (Data.optional? Data.str?)
  return { imported := imported, localName := localName }

/-- Checks a request. -/
def ImportSpec.ofData? (d : Data) : Option ImportSpec := do
  let fields ← d.fields?
  let source ← Data.required? fields ["from", "from_"] ImportSource.ofData?
  let names ← Data.defaulted? fields ["names"] [] (Data.listOf? ImportName.ofData?)
  let wholeName ← Data.defaulted? fields ["namespace"] none (Data.optional? Data.str?)
  return { source := source, names := names, wholeName := wholeName }

/-- The imports that have been asked for, one entry for each module. -/
structure ImportSink where
  specs : List ImportSpec := []
  deriving Repr

namespace ImportSink

/-- Adds names to those that are bound already; the first request for a binding counts. -/
def addNames (names more : List ImportName) : List ImportName :=
  more.foldl
    (fun names n => if names.any fun known => known.binding == n.binding then names else names ++ [n])
    names

/-- The name for a whole module, unless it is empty. -/
def nameOf (spec : ImportSpec) : Option String :=
  spec.wholeName.filter fun n => !n.isEmpty

/-- Adds a request. -/
def add (sink : ImportSink) (spec : ImportSpec) : ImportSink :=
  if sink.specs.any fun s => s.source == spec.source then
    { specs := sink.specs.map fun s =>
        if s.source == spec.source then
          { s with
            names := addNames s.names spec.names
            wholeName := s.wholeName.or (nameOf spec) }
        else s }
  else
    { specs := sink.specs ++
        [{ source := spec.source, names := addNames [] spec.names, wholeName := nameOf spec }] }

/-- Adds requests. -/
def extend (sink : ImportSink) (specs : List ImportSpec) : ImportSink :=
  specs.foldl add sink

end ImportSink

/-- Ends of file names that a specifier leaves out. -/
def sourceSuffixes : List String := [".ts", ".tsx", ".js", ".jsx"]

/-- The specifier for a source in a file, for a given working directory. -/
def ImportSource.specifier (source : ImportSource) (directory file : String) : String :=
  match source.kind with
  | .specifier => source.value
  | .absolutePath =>
    let working := Path.ofText directory
    let target := Path.ofText source.value
    let target := if sourceSuffixes.contains target.suffix then target.dropSuffix else target
    let base :=
      if file.isEmpty then working else (working.below (Path.ofText file)).collapse.parent
    let way := ((working.below target).relativeTo base).text
    if Text.hasLead "." way then way else "./" ++ way

end Restyle.Adapter
