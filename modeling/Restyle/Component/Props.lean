import Restyle.Module.Declarations
import Restyle.Text.Scan

/-!
# Props of a component

Which props a component passes on, and which it keeps for its styles.
-/

namespace Restyle.Component

open Restyle.Tsx (Node)

/-- A name in quotes. -/
def quotedName? (cs : List Char) : Option (String × List Char) :=
  match cs with
  | q :: rest =>
    if q == '\'' || q == '"' then
      let name := rest.takeWhile fun c => c != '\'' && c != '"'
      match rest.drop name.length with
      | e :: after => if !name.isEmpty && e == q then some (String.ofList name, after) else none
      | [] => none
    else none
  | [] => none

/-- A list of names that a parameter must not be among. -/
def excludedList? (param : String) (cs : List Char) : Option (List String × List Char) := do
  let cs ← Text.after? ['!'] cs
  let cs ← Text.after? ['['] (Text.trimStart cs)
  let items := cs.takeWhile (· != ']')
  let cs ← Text.after? [']'] (cs.drop items.length)
  let cs ← Text.after? ".includes(".toList (Text.trimStart cs)
  let cs ← Text.after? param.toList (Text.trimStart cs)
  let cs ← Text.after? [')'] (Text.trimStart cs)
  return (Text.collect (fun _ => quotedName?) items, cs)

/-- A name that a parameter must differ from. -/
def excludedName? (param : String) (cs : List Char) : Option (String × List Char) := do
  let cs ← Text.after? param.toList cs
  let cs ← Text.after? ['!', '='] (Text.trimStart cs)
  let cs := match cs with
    | '=' :: rest => rest
    | _ => cs
  quotedName? (Text.trimStart cs)

/-- A test for a dollar sign at the start. -/
def dollarTest? (cs : List Char) : Option (Unit × List Char) := do
  let cs ← Text.after? "startsWith(".toList cs
  let q :: '$' :: e :: cs := Text.trimStart cs | none
  let isQuote (c : Char) : Bool := c == '\'' || c == '"'
  if !(isQuote q && isQuote e) then none
  let cs ← Text.after? [')'] (Text.trimStart cs)
  return ((), cs)

/-- Whether a test leaves the choice to the default rules. -/
def usesDefaultRules (body : String) : Bool :=
  Text.mentions "isPropValid" body || Text.mentions "defaultValidatorFn" body ||
    !(Text.collect (fun _ => dollarTest?) body.toList).isEmpty

/-- The props that a test for forwarding holds back; `none` when the test is not understood. -/
def heldBack? (test : Node) : Option (List String) := do
  let arrow ← test.arrow?
  let body ← arrow.body
  let param ← arrow.param
  if param.isEmpty then none
  let cs := body.text.toList
  let names := (Text.collect (fun _ => excludedList? param) cs).flatten ++
    Text.collect (fun _ => excludedName? param) cs
  if names.isEmpty && !usesDefaultRules body.text then none
  else some (Text.firstOccurrences names)

/-- The name of a prop that starts with a dollar sign. -/
def dollarName? (last : Option Char) (cs : List Char) : Option (String × List Char) :=
  match cs with
  | '$' :: c :: rest =>
    if last.any Text.isPropChar || !(Text.isAsciiLetter c || c == '_') then none
    else
      let more := rest.takeWhile Text.isPropChar
      some (String.ofList ('$' :: c :: more), rest.drop more.length)
  | _ => none

/-- The props with dollar signs that a component names anywhere. -/
def dollarProps (d : Module.StyledDeclaration) : List String :=
  let texts := d.template.expressions.map Node.text ++
    (d.typeArguments.filter fun t => !t.isEmpty).toList ++ (d.attrs.map Node.text).toList
  Text.firstOccurrences (texts.flatMap fun t => Text.collect dollarName? t.toList)

end Restyle.Component
