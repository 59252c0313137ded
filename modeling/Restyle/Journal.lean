import Restyle.Component.Encoding
import Restyle.Trace

/-!
# Diagnostics and traces as data

The form in which a run reports what it found and what it did.
-/

namespace Restyle

/-- A diagnostic of a file as data. -/
def Diagnostic.toData (d : Diagnostic) (file : String) : Data :=
  .obj [("severity", d.severity.text), ("type", d.kind.message), ("category", d.category.text),
    ("location", Location.toData d.location), ("context", .obj d.context), ("text", d.text file)]

/-- An event as data. -/
def TraceEvent.toData (e : TraceEvent) : Data :=
  .obj [("type", e.kind.text), ("description", e.description),
    ("parent", match e.parent with
      | some n => (n : Data)
      | none => .null),
    ("metadata", .obj e.details)]

/-- A trace as data. -/
def Trace.toData (t : Trace) : Data := t.events.map TraceEvent.toData

end Restyle
