import Restyle.Adapter.Imports

/-!
# Questions to an adapter

An adapter knows the project: it resolves theme paths, imported values and calls of helpers.  Its
answers are data that still has to be checked; an answer of the wrong form breaks the contract.
-/

namespace Restyle.Adapter

/-- What a value to resolve is. -/
inductive ValueKind where
  | theme
  | cssVariable
  | importedValue
  deriving DecidableEq, Repr

/-- The word for a kind of value. -/
def ValueKind.text : ValueKind → String
  | .theme => "theme"
  | .cssVariable => "cssVariable"
  | .importedValue => "importedValue"

/-- A value to resolve. -/
structure ValueQuery where
  kind : ValueKind
  path : String
  property : Option String := none
  importSource : Option String := none
  defaultValue : Option String := none
  deriving DecidableEq, Repr

/-- A call to resolve; the arguments are source text. -/
structure CallQuery where
  callee : String
  source : String
  arguments : List String := []
  property : Option String := none
  deriving DecidableEq, Repr

/-- A question that has been asked. -/
inductive Query where
  | value (q : ValueQuery)
  | call (q : CallQuery)
  deriving DecidableEq, Repr

/-- A resolved value. -/
structure ValueResult where
  expr : String
  imports : List ImportSpec := []
  dropDefinition : Bool := false

/-- How a resolved call is used. -/
inductive CallUsage where
  /-- The expression is a style that is passed on. -/
  | props
  /-- The expression is the value of a property. -/
  | create
  deriving DecidableEq, Repr

/-- The word for a use of a call. -/
def CallUsage.text : CallUsage → String
  | .props => "props"
  | .create => "create"

/-- A resolved call. -/
structure CallResult where
  usage : CallUsage
  expr : String
  imports : List ImportSpec := []
  cssText : Option String := none

/-- An answer broke the contract. -/
inductive ContractFault where
  | invalidAnswer
  deriving DecidableEq, Repr

/-- Checks a resolved value. -/
def ValueResult.ofData? (d : Data) : Option ValueResult := do
  let fields ← d.fields?
  let expr ← Data.required? fields ["expr"] Data.str?
  let imports ← Data.defaulted? fields ["imports"] [] (Data.listOf? ImportSpec.ofData?)
  let dropDefinition ← Data.defaulted? fields ["drop_definition"] false Data.flag?
  return { expr := expr, imports := imports, dropDefinition := dropDefinition }

/-- Checks a use of a call. -/
def CallUsage.ofData? : Data → Option CallUsage
  | .str "props" => some .props
  | .str "create" => some .create
  | _ => none

/-- Checks a resolved call. -/
def CallResult.ofData? (d : Data) : Option CallResult := do
  let fields ← d.fields?
  let usage ← Data.required? fields ["usage"] CallUsage.ofData?
  let expr ← Data.required? fields ["expr"] Data.str?
  let imports ← Data.defaulted? fields ["imports"] [] (Data.listOf? ImportSpec.ofData?)
  let cssText ← Data.defaulted? fields ["css_text"] none (Data.optional? Data.str?)
  return { usage := usage, expr := expr, imports := imports, cssText := cssText }

/-- An answer that may be missing; one that fails its check breaks the contract. -/
def answer {α : Type} (check : Data → Option α) (d : Data) : Except ContractFault (Option α) :=
  match Data.optional? check d with
  | some result => .ok result
  | none => .error .invalidAnswer

end Restyle.Adapter
