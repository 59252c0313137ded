import Restyle.Data.Check
import Restyle.Path
import Restyle.Table

/-!
# Usage in other modules

Summaries say for the components of a file how other modules use them.  They are found under the path of
the file, or under a path that ends with the other.
-/

namespace Restyle.Plan

/-- How other modules use a component. -/
structure UsageSummary where
  /-- Whether it is given styles. -/
  styles : Bool := false
  /-- Whether it is rendered as something else. -/
  rendersAs : Bool := false
  deriving DecidableEq, Repr

/-- Summaries by file and component. -/
abbrev Summaries := Table (Table UsageSummary)

/-- Checks a summary. -/
def UsageSummary.ofData? (d : Data) : Option UsageSummary := do
  let fields ← d.fields?
  let styles ← Data.defaulted? fields ["styles"] false Data.flag?
  let rendersAs ← Data.defaulted? fields ["as", "as_"] false Data.flag?
  return { styles := styles, rendersAs := rendersAs }

namespace Summaries

/-- The form in which paths are compared. -/
def pathKey (path : String) : String :=
  if path.isEmpty then "" else (Path.ofText path).text

/-- Checks summaries. -/
def ofData? (d : Data) : Option Summaries := do
  let files ← d.fields?
  let checked ← files.mapM fun (path, components) => do
    let components ← components.fields?
    let summaries ← components.mapM fun (name, summary) => do
      return (name, ← UsageSummary.ofData? summary)
    return (pathKey path, Table.ofList summaries)
  return Table.ofList checked

/-- Whether one of two paths ends with the other. -/
def isSameFile (a b : String) : Bool :=
  !a.isEmpty && !b.isEmpty && (Text.hasTail ("/" ++ b) a || Text.hasTail ("/" ++ a) b)

/-- The summary of a component of a file. -/
def lookup (s : Summaries) (path component : String) : Option UsageSummary := do
  let key := pathKey path
  let components ←
    (Table.get? s key).or ((s.find? fun (known, _) => isSameFile key known).map (·.2))
  components.get? component

end Summaries

end Restyle.Plan
