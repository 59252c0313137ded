import Restyle.Css.Rule
import Restyle.Css.Selector
import Restyle.Css.Split
import Restyle.Css.Token

/-!
# Style sheets

Reads the tokens of a style sheet into a rule tree.  The reader keeps the open rules on a stack and
the text that has not found its semicolon or brace yet; every token is looked at once.
-/

namespace Restyle.Css

/--
A slot on a line of its own before a nested rule: the mark and the text after the line break.  Such a
slot is a block of its own and not part of the selector.
-/
def slotBeforeRule? (cs : List Char) : Option (List Char × List Char) :=
  match Slot.read? cs with
  | none => none
  | some (_, written, rest) =>
    let isGap (c : Char) : Bool := c == ' ' || c == '\t'
    let rest := rest.dropWhile isGap
    let rest :=
      match rest with
      | ';' :: more => more.dropWhile isGap
      | _ => rest
    match rest with
    | '\n' :: more =>
      match Text.trimStart more with
      | [] => none
      | selector => some (written, selector)
    | _ => none

/-- A slot before a declaration: the mark and the text after the blanks that follow it. -/
def leadingSlot? (cs : List Char) : Option (List Char × List Char) :=
  match Slot.read? cs with
  | some (_, written, c :: more) =>
    if Text.isBlank c then
      match Text.trimStart more with
      | [] => none
      | rest => some (written, rest)
    else none
  | _ => none

/-- The block slots that stand before the selector of a nested rule, and the selector. -/
def peelSelector : Nat → List Char → List Declaration × List Char
  | 0, cs => ([], cs)
  | fuel + 1, cs =>
    match slotBeforeRule? cs with
    | some (written, rest) =>
      let (slots, selector) := peelSelector fuel rest
      (⟨"", String.ofList written⟩ :: slots, selector)
    | none => ([], cs)

/-- The block slots that stand before a declaration, and the declaration. -/
def peelDeclaration : Nat → List Char → List Declaration × List Char
  | 0, cs => ([], cs)
  | fuel + 1, cs =>
    match leadingSlot? cs with
    | some (written, rest) =>
      if (splitColon? rest).isNone && (Slot.read? rest).isNone then ([], cs)
      else
        let (slots, declaration) := peelDeclaration fuel (Text.trim rest)
        (⟨"", String.ofList written⟩ :: slots, declaration)
    | none => ([], cs)

/-- The name of a property as it is kept: lower case unless it is custom or interpolated. -/
def propertyName (cs : List Char) : String :=
  let name := String.ofList (Text.trim cs)
  if Text.hasLead "--" name || Text.mentions "__INTERPOLATION_" name then name else Text.lower name

/-- The declarations of one text run that ended at a semicolon or at the end of its block. -/
def declarationsOf (text : String) : List Declaration :=
  let cs := Text.trim text.toList
  let (slots, rest) := peelDeclaration cs.length cs
  match splitColon? rest with
  | none => slots ++ [⟨"", String.ofList rest⟩]
  | some (name, value) => slots ++ [⟨propertyName name, String.ofList (Text.trim value)⟩]

/-- The rules that are open, innermost first, and the text read since the last complete item. -/
structure SheetState where
  current : Rule
  outer : List Rule := []
  pending : List String := []

namespace SheetState

/-- The pending text, its runs joined by blanks. -/
def text (s : SheetState) : String :=
  " ".intercalate s.pending

/-- Ends the pending text as declarations of the current rule. -/
def flush (s : SheetState) : SheetState :=
  if s.pending.isEmpty then s
  else
    { s with
      current := { s.current with declarations := s.current.declarations ++ declarationsOf s.text }
      pending := [] }

/-- Opens a nested rule whose selector is the pending text. -/
def openRule (s : SheetState) : SheetState :=
  let cs := s.text.toList
  let (slots, rest) := peelSelector cs.length cs
  let selector := normalizeSelector (String.ofList rest)
  let atRules := if isAtRule selector then s.current.atRules ++ [selector] else s.current.atRules
  let parent := { s.current with declarations := s.current.declarations ++ slots }
  { current := { selector := selector, atRules := atRules }, outer := parent :: s.outer }

/-- Closes the current rule inside its parent. -/
def closeRule (s : SheetState) (parent : Rule) (outer : List Rule) : SheetState :=
  { current := { parent with nested := parent.nested ++ [s.current] }, outer }

/-- The state after one more token. -/
def step (s : SheetState) (token : Token) : Except SyntaxFault SheetState :=
  match token.kind with
  | .comment => .ok s
  | .text => .ok { s with pending := s.pending ++ [token.value] }
  | .semicolon => .ok s.flush
  | .lbrace => if s.pending.isEmpty then .error (.missingSelector token.offset) else .ok s.openRule
  | .rbrace =>
    let s := s.flush
    match s.outer with
    | [] => .error (.unexpectedClose token.offset)
    | parent :: outer => .ok (s.closeRule parent outer)

/-- The root rule once all tokens are read. -/
def finish (s : SheetState) : Except SyntaxFault Rule :=
  let s := s.flush
  match s.outer with
  | [] => .ok s.current
  | _ :: _ => .error (.unclosedBlock s.current.selector)

end SheetState

/-- The rule tree of a list of tokens. -/
def ruleOfTokens (tokens : List Token) : Except SyntaxFault Rule := do
  let s ← tokens.foldlM SheetState.step { current := { selector := "&" } }
  s.finish

/-- The rule tree of a style sheet; its root has the selector `&`. -/
def parseSheet (text : String) : Except SyntaxFault Rule := do
  ruleOfTokens (← tokenize text)

end Restyle.Css
