import Restyle.Data.Basic

/-!
# Execution traces

A run records its phases and what happened in them.  Phases nest; every event knows the innermost
phase that was open when it happened, and the end of a phase knows the phase it ends.
-/

namespace Restyle

/-- What an event of a trace is about. -/
inductive TraceKind where
  | phaseStart
  | phaseEnd
  | decision
  | lowering
  | diagnostic
  | importAction
  | inspection
  deriving DecidableEq, Repr

/-- The word for a kind of event. -/
def TraceKind.text : TraceKind → String
  | .phaseStart => "phase_start"
  | .phaseEnd => "phase_end"
  | .decision => "decision"
  | .lowering => "lowering"
  | .diagnostic => "diagnostic"
  | .importAction => "import_action"
  | .inspection => "inspection"

/-- An event; `parent` is the position of the phase it belongs to. -/
structure TraceEvent where
  kind : TraceKind
  description : String
  parent : Option Nat := none
  details : List (String × Data) := []

/-- The events of a run, and the positions of the open phases, innermost first. -/
structure Trace where
  events : List TraceEvent := []
  active : List Nat := []

namespace Trace

/-- Adds an event to the innermost open phase. -/
def log (t : Trace) (kind : TraceKind) (description : String) (details : List (String × Data)) :
    Trace :=
  { t with events := t.events ++ [{ kind, description, parent := t.active.head?, details }] }

/-- Opens a phase inside the innermost open one. -/
def startPhase (t : Trace) (name : String) (detail : String) : Trace :=
  let position := t.events.length
  let t := t.log .phaseStart name [("detail", .str detail)]
  { t with active := position :: t.active }

/-- Closes the innermost open phase, if there is one. -/
def endPhase (t : Trace) : Trace :=
  match t.active with
  | [] => t
  | phase :: outer =>
    { events := t.events ++ [{ kind := .phaseEnd, description := "End Phase", parent := some phase }]
      active := outer }

/-- Records the decision on a slot. -/
def decision (t : Trace) (component : String) (index : Int) (tag action : String) : Trace :=
  t.log .decision (component ++ "[" ++ toString index ++ "] " ++ tag ++ " -> " ++ action)
    [("component", .str component), ("index", .int index), ("tag", .str tag),
      ("action", .str action)]

/-- Records that a pass lowered a selector. -/
def lowering (t : Trace) (pass component selector : String) : Trace :=
  t.log .lowering (pass ++ ": " ++ component ++ " '" ++ selector ++ "'")
    [("pass", .str pass), ("component", .str component), ("selector", .str selector)]

/-- Records a message with its level. -/
def message (t : Trace) (text severity : String) : Trace :=
  t.log .diagnostic text [("level", .str severity)]

/-- Records that names were added to or removed from the imports of a module. -/
def importAction (t : Trace) (action source : String) (names : List String) : Trace :=
  let listed := ", ".intercalate names
  let listed := if listed.isEmpty then "*" else listed
  t.log .importAction (action ++ " " ++ listed ++ " from '" ++ source ++ "'")
    [("action", .str action), ("source", .str source), ("names", .list (names.map Data.str))]

/-- Records what was found at a subject that was looked at. -/
def inspection (t : Trace) (subject outcome detail : String) : Trace :=
  t.log .inspection ("Inspecting '" ++ subject ++ "'")
    [("outcome", .str outcome), ("detail", .str detail)]

end Trace

end Restyle
