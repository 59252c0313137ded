import Restyle.Style.Value
import Restyle.Text.Blank
import Restyle.Text.Scan

/-!
# Selectors to be lowered

The raw selectors in the styles of a component, and readers for the parts that lowering knows.
-/

namespace Restyle.Lowering

open Restyle.Style (Key Value Object)

/-- Whether an entry is a raw selector with its body. -/
def isRawSelector (key : Key) (value : Value) : Bool :=
  match key, value with
  | .name _, .obj o =>
    !Object.isConditional o && !key.isCondition && !key.isPseudoElement
  | _, _ => false

/-- The raw selectors of styles with their bodies. -/
def rawSelectors (styles : Object) : List (String × Object) :=
  styles.filterMap fun (key, value) =>
    if isRawSelector key value then
      match key, value with
      | .name s, .obj o => some (s, o)
      | _, _ => none
    else none

/-- A selector without the parent sign in front of its first part. -/
def stripSelf (selector : String) : String :=
  let text := Text.strip selector
  if Text.hasLead "& " text && !Text.hasLead "& &" text then Text.strip (Text.dropFirst 2 text)
  else text

/-- The value of a property when no condition holds. -/
def baseValue (styles : Object) (key : Key) : Value :=
  match Object.get? styles key with
  | some (.obj o) =>
    if Object.isConditional o then (Object.get? o Key.default).getD .null else .obj o
  | some v => v
  | none => .null

/-- Characters of pseudo classes, attributes and class names. -/
def isSelectorChar (c : Char) : Bool :=
  Text.isWordChar c || c == '-'

/-- One or more characters of a kind. -/
def run? (isPart : Char → Bool) (cs : List Char) : Option (List Char × List Char) :=
  let part := cs.takeWhile isPart
  if part.isEmpty then none else some (part, cs.drop part.length)

/-- A pseudo class with its arguments, if it has some. -/
def pseudo? (cs : List Char) : Option (String × List Char) := do
  let rest ← Text.after? [':'] cs
  let (name, rest) ← run? isSelectorChar rest
  match rest with
  | '(' :: more =>
    let inside := more.takeWhile (· != ')')
    match more.drop inside.length with
    | _ :: after => some (String.ofList (':' :: name ++ '(' :: inside ++ [')']), after)
    | [] => some (String.ofList (':' :: name), rest)
  | _ => some (String.ofList (':' :: name), rest)

/-- A reference to a component. -/
def componentRef? (cs : List Char) : Option (String × List Char) := do
  let rest ← Text.after? ['$', '{'] cs
  match rest with
  | c :: more =>
    if Text.isAsciiLetter c || c == '_' || c == '$' then
      let tail := more.takeWhile Text.isPropChar
      let after ← Text.after? ['}'] (more.drop tail.length)
      some (String.ofList (c :: tail), after)
    else none
  | [] => none

/-- The components that a selector refers to. -/
def componentRefs (selector : String) : List String :=
  Text.collect (fun _ => componentRef?) selector.toList

/-- One or more blanks. -/
def blanks? (cs : List Char) : Option (List Char) :=
  (run? Text.isBlank cs).map (·.2)

end Restyle.Lowering
