import Restyle.Text.Blank
import Restyle.Text.Search

/-!
# Selectors in one spelling

A selector is kept with single blanks, with one blank on each side of a child or sibling combinator
and with one blank after a comma.  Combinator characters inside parentheses, and those that belong to
an attribute operator, are left as they stand.
-/

namespace Restyle.Css

/-- The characters of the child and sibling combinators. -/
def isCombinator (c : Char) : Bool :=
  c == '>' || c == '+' || c == '~'

/-- Whether a closing parenthesis comes before any opening one. -/
def closesGroup (cs : List Char) : Bool :=
  match cs.find? fun c => c == '(' || c == ')' with
  | some c => c == ')'
  | none => false

/-- A combinator at the start of a text, blanks around it aside, with what follows it. -/
def combinator? (cs : List Char) : Option (Char × List Char) :=
  match Text.trimStart cs with
  | c :: rest =>
    if isCombinator c && !Text.startsWith ['='] rest && !closesGroup rest then
      some (c, Text.trimStart rest)
    else none
  | [] => none

/-- A comma at the start of a text, blanks around it aside, with what follows it. -/
def comma? (cs : List Char) : Option (List Char) :=
  match Text.trimStart cs with
  | ',' :: rest => some (Text.trimStart rest)
  | _ => none

/--
Replaces every separator that `read?` finds.  `skip` counts the characters of a separator that has
been replaced already.
-/
def respace (read? : List Char → Option (List Char × List Char)) : Nat → List Char → List Char
  | _, [] => []
  | skip + 1, _ :: cs => respace read? skip cs
  | 0, c :: cs =>
    match read? (c :: cs) with
    | some (written, rest) => written ++ respace read? (cs.length - rest.length) cs
    | none => c :: respace read? 0 cs

/-- Puts one blank on each side of every combinator outside parentheses. -/
def spaceCombinators (cs : List Char) : List Char :=
  respace (fun cs => (combinator? cs).map fun (c, rest) => ([' ', c, ' '], rest)) 0 cs

/-- Puts one blank after every comma and none before it. -/
def spaceCommas (cs : List Char) : List Char :=
  respace (fun cs => (comma? cs).map fun rest => ([',', ' '], rest)) 0 cs

/-- Blank runs as single spaces, none at the ends. -/
def collapse (cs : List Char) : List Char :=
  (" ".intercalate ((Text.words cs).map String.ofList)).toList

/-- The one spelling of a selector. -/
def normalizeSelector (text : String) : String :=
  String.ofList (Text.trim (spaceCommas (spaceCombinators (collapse text.toList))))

end Restyle.Css
