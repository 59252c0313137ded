import Restyle.Data.Basic
import Restyle.Text.Letter

/-!
# Checking data

Data from outside is checked against the form it has to have.  Unknown fields do not matter.  Flags may
be given by some numbers and words.
-/

namespace Restyle.Data

/-- The flag that a word stands for. -/
def flagOfWord? (s : String) : Option Bool :=
  let w := Text.lower s
  if ["1", "t", "true", "y", "yes", "on"].contains w then some true
  else if ["0", "f", "false", "n", "no", "off"].contains w then some false
  else none

/-- The flag that data stands for. -/
def flag? : Data → Option Bool
  | .bool b => some b
  | .int n => if n = 0 then some false else if n = 1 then some true else none
  | .float x => (x.toInt?).bind fun n =>
      if n = 0 then some false else if n = 1 then some true else none
  | .str s => flagOfWord? s
  | _ => none

/-- Data that may be absent. -/
def optional? {α : Type} (check : Data → Option α) : Data → Option (Option α)
  | .null => some none
  | d => (check d).map some

/-- A list of which every item passes a check. -/
def listOf? {α : Type} (check : Data → Option α) (d : Data) : Option (List α) :=
  d.items?.bind fun items => items.mapM check

/-- The first of some fields that is present. -/
def firstField? (fields : List (String × Data)) (names : List String) : Option Data :=
  names.findSome? fun name => field? fields name

/-- A field that must be present. -/
def required? {α : Type} (fields : List (String × Data)) (names : List String)
    (check : Data → Option α) : Option α :=
  (firstField? fields names).bind check

/-- A field that has a value of its own when it is absent. -/
def defaulted? {α : Type} (fields : List (String × Data)) (names : List String) (default : α)
    (check : Data → Option α) : Option α :=
  match firstField? fields names with
  | some d => check d
  | none => some default

end Restyle.Data
