import Restyle.Interpolation.Decision
import Restyle.Plan.Summary

/-!
# Conversions

What a conversion of modules draws on, and what comes out of it.
-/

namespace Restyle.Conversion

open Restyle.Interpolation (FallbackBehavior ProjectAdapter StyleMerger)

/-- The settings of a conversion. -/
structure Settings where
  /-- What to do with slots that nobody takes. -/
  fallback : FallbackBehavior := .bail
  styleMerger : Option StyleMerger := none
  /-- Whether relations between components may be expressed by markers. -/
  relationMarkers : Bool := true
  /-- The name of the registry. -/
  stylesName : String := "styles"
  /-- The module that the library is imported from. -/
  libraryModule : String := "@stylexjs/stylex"
  /-- Whether modules with unsupported features are left alone. -/
  isStrict : Bool := false

/-- What the conversion of the modules of a project shares. -/
structure Project where
  settings : Settings := {}
  adapter : ProjectAdapter := {}
  /-- How other modules use the components of a file, if that is known. -/
  summaries : Option Plan.Summaries := none
  /-- The working directory. -/
  directory : String := "/"

/-- The function that merges styles from outside: that of the settings, or else that of the adapter. -/
def Project.styleMerger (p : Project) : Option StyleMerger :=
  p.settings.styleMerger.or p.adapter.styleMerger

/-- The local name of the library in converted modules. -/
def libraryName : String := "stylex"

/-- How serious a message is. -/
inductive Level where
  | info
  | success
  | warning
  | error
  deriving DecidableEq, Repr

/-- The word for a level. -/
def Level.text : Level → String
  | .info => "INFO"
  | .success => "SUCCESS"
  | .warning => "WARNING"
  | .error => "ERROR"

/-- A message to the user. -/
structure Message where
  level : Level
  text : String
  deriving DecidableEq, Repr

/-- The fate of a module. -/
structure Verdict where
  /-- The converted text; there is none when nothing applied. -/
  code : Option String := none
  success : Bool := true
  converted : List String := []
  skipped : List String := []
  styleKeys : List String := []

/-- The fate of a module with all that was collected on the way. -/
structure Outcome extends Verdict where
  diagnostics : List Diagnostic := []
  trace : Trace := {}
  messages : List Message := []

namespace Outcome

/-- Whether the module has a converted text. -/
def changed (o : Outcome) : Bool := o.code.isSome

/-- Whether an error was reported. -/
def hasErrors (o : Outcome) : Bool := o.diagnostics.any fun d => d.severity == .error

/-- The number of reported slots. -/
def dynamicCount (o : Outcome) : Nat :=
  (o.diagnostics.filter fun d => d.category == .dynamicNode).length

end Outcome

/-- Work on a module; messages to the user are kept. -/
abbrev Converting := Work (List Message)

/-- Tells the user something. -/
def Converting.tell (level : Level) (text : String) : Converting Unit :=
  Work.update fun messages => messages ++ [{ level := level, text := text }]

end Restyle.Conversion
