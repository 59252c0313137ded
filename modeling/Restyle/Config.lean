import Restyle.Conversion.Basic
import Restyle.Data.Field
import Restyle.Data.Spelling

/-!
# Configuration

The configuration of a project: the settings of a conversion, and where the adapter and the usage
summaries are.
-/

namespace Restyle

open Restyle.Interpolation (FallbackBehavior StyleMerger)

/-- The word for a behaviour. -/
def Interpolation.FallbackBehavior.text : FallbackBehavior → String
  | .bail => "bail"
  | .drop => "drop"

/-- The behaviour of a word. -/
def Interpolation.FallbackBehavior.ofText? (s : String) : Option FallbackBehavior :=
  [FallbackBehavior.bail, .drop].find? fun b => b.text == s

/-- Checks a behaviour. -/
def Interpolation.FallbackBehavior.ofData? (d : Data) : Option FallbackBehavior :=
  d.str?.bind FallbackBehavior.ofText?

/-- Checks a function that merges styles. -/
def Interpolation.StyleMerger.ofData? (d : Data) : Option StyleMerger := do
  let fields ← d.fields?
  let functionName ← Data.required? fields ["function_name"] Data.str?
  let importSource ← Data.required? fields ["import_source"] Data.str?
  return { functionName := functionName, importSource := importSource }

/-- The configuration of a project. -/
structure Config where
  adapterPath : Option String := none
  prepassPath : Option String := none
  settings : Conversion.Settings := {}

namespace Config

/-- Checks a name for the registry; blanks around it do not matter. -/
def registryName? (s : String) : Option String :=
  let name := Text.strip s
  let isMark (c : Char) : Bool := c == '_' || c == '$'
  match name.toList with
  | [] => none
  | c :: cs =>
    if (Text.isLetter c || isMark c) && cs.all fun c => Text.isAlphanumeric c || isMark c then
      some name
    else none

/-- Checks a path. -/
def pathOf? (d : Data) : Option String :=
  d.str?.map fun s => (Path.ofText s).text

/-- Checks the fields of a configuration. -/
def ofFields? (fields : List (String × Data)) : Option Config := do
  let adapterPath ← Data.defaulted? fields ["adapter_path"] none (Data.optional? pathOf?)
  let prepassPath ← Data.defaulted? fields ["prepass_path"] none (Data.optional? pathOf?)
  let fallback ← Data.defaulted? fields ["fallback_behavior"] .bail FallbackBehavior.ofData?
  let styleMerger ←
    Data.defaulted? fields ["style_merger"] none (Data.optional? StyleMerger.ofData?)
  let relationMarkers ← Data.defaulted? fields ["relation_markers"] true Data.flag?
  let stylesName ←
    Data.defaulted? fields ["styles_identifier"] "styles" fun d => d.str?.bind registryName?
  let libraryModule ← Data.defaulted? fields ["stylex_import"] "@stylexjs/stylex" Data.str?
  let isStrict ← Data.defaulted? fields ["strict_mode"] false Data.flag?
  let settings : Conversion.Settings :=
    { fallback := fallback, styleMerger := styleMerger, relationMarkers := relationMarkers
      stylesName := stylesName, libraryModule := libraryModule, isStrict := isStrict }
  return { adapterPath := adapterPath, prepassPath := prepassPath, settings := settings }

/-- Checks a configuration. -/
def ofData? (d : Data) : Option Config :=
  d.fields?.bind ofFields?

/-- A configuration as data. -/
def toData (c : Config) : Data :=
  .obj [("adapter_path", Data.ofText? c.adapterPath), ("prepass_path", Data.ofText? c.prepassPath),
    ("fallback_behavior", c.settings.fallback.text),
    ("style_merger", match c.settings.styleMerger with
      | some m => Data.pair m.functionName m.importSource
      | none => .null),
    ("relation_markers", c.settings.relationMarkers),
    ("styles_identifier", c.settings.stylesName), ("stylex_import", c.settings.libraryModule),
    ("strict_mode", c.settings.isStrict)]

/-! ## Settings files -/

/-- What takes precedence over a settings file. -/
structure Overrides where
  adapterPath : Option String := none
  prepassPath : Option String := none
  fallback : Option String := none
  strict : Option Data := none

/-- Why a settings file gives no configuration. -/
inductive Fault where
  /-- What should be a table is none. -/
  | notATable
  /-- What should be a path is none. -/
  | notAPath
  /-- A behaviour of which nobody knows. -/
  | unknownFallback (given : String)
  /-- A field fails its check. -/
  | invalid
  deriving DecidableEq, Repr

/-- The message about an unknown behaviour. -/
def Fault.message : Fault → String
  | .unknownFallback given => given ++ " is not a valid FallbackBehavior"
  | _ => ""

/-- The path that a field of a settings file gives, seen from the directory of the file. -/
def pathFrom (directory : Path) (d : Data) : Except Fault (Option String) :=
  if !d.truthy then .ok none
  else
    match d with
    | .str s => .ok (some (directory.below (Path.ofText s)).collapse.text)
    | _ => .error .notAPath

/-- The fields of a table inside a table; a missing one is empty. -/
def tableIn (fields : List (String × Data)) (name : String) :
    Except Fault (List (String × Data)) :=
  match Data.field? fields name with
  | none => .ok []
  | some (.obj inner) => .ok inner
  | some _ => .error .notATable

/-- The configuration of a table in a settings file of a directory. -/
def ofTable (directory : Path) (table : List (String × Data)) (o : Overrides) :
    Except Fault Config := do
  let pathAt (given : Option String) (name : String) : Except Fault (Option String) :=
    match given with
    | some path => .ok (some (Path.ofText path).text)
    | none => pathFrom directory ((Data.field? table name).getD .null)
  let adapterPath ← pathAt o.adapterPath "adapter_path"
  let prepassPath ← pathAt o.prepassPath "prepass_path"
  let fallback :=
    match o.fallback.filter fun f => !f.isEmpty with
    | some f => .str f
    | none => (Data.field? table "fallback_behavior").getD (.str "bail")
  let merger := (Data.field? table "style_merger").getD .null
  let styleMerger ←
    if !merger.truthy then pure none
    else
      match StyleMerger.ofData? merger with
      | some m => pure (some m)
      | none => .error .invalid
  let fallback ←
    match FallbackBehavior.ofData? fallback with
    | some b => pure b
    | none => .error (.unknownFallback fallback.spelled)
  let known := ["relation_markers", "styles_identifier", "stylex_import", "strict_mode"]
  let own := table.filter fun (name, _) => known.contains name
  let own := (o.strict.map fun s => Data.setField own "strict_mode" s).getD own
  match ofFields? own with
  | some c => return { c with adapterPath, prepassPath,
                              settings := { c.settings with fallback, styleMerger } }
  | none => .error .invalid

/-- The configuration of a settings file; one that cannot be read says nothing. -/
def ofDocument (directory : Path) (document : Option Data) (o : Overrides) :
    Except Fault Config := do
  match document with
  | some (.obj fields) =>
    ofTable directory (← tableIn (← tableIn fields "tool") "stylex_switcheroo") o
  | _ => ofTable directory [] o

end Config

end Restyle
