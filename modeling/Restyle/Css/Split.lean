import Restyle.Text.Blank

/-!
# Splitting at the top level

Values and selectors are cut at separators that stand outside quotes and parentheses.  A backslash
has no meaning here, and a closing parenthesis without a partner is ignored when splitting.
-/

namespace Restyle.Css

/-- Whether a reader stands inside a quoted string, and how many parentheses are open. -/
structure Nesting where
  quote : Option Char := none
  depth : Nat := 0
  deriving DecidableEq, Repr

namespace Nesting

/-- Outside quotes and parentheses. -/
def isTop (n : Nesting) : Bool :=
  n.quote.isNone && n.depth == 0

/-- The nesting after one more character. -/
def next (n : Nesting) (c : Char) : Nesting :=
  match n.quote with
  | some q => if c == q then { n with quote := none } else n
  | none =>
    if c == '"' || c == '\'' then { n with quote := some c }
    else if c == '(' then { n with depth := n.depth + 1 }
    else if c == ')' then { n with depth := n.depth - 1 }
    else n

end Nesting

/-- Whether a character opens or closes quotes or parentheses. -/
def isBracket (c : Char) : Bool :=
  c == '"' || c == '\'' || c == '(' || c == ')'

/--
The parts of a text between the top-level characters that satisfy `sep`; `current` is the open part,
reversed.  Quotes and parentheses never separate.
-/
def cutFrom (sep : Char → Bool) : Nesting → List Char → List Char → List (List Char)
  | _, current, [] => [current.reverse]
  | n, current, c :: cs =>
    if n.isTop && !isBracket c && sep c then current.reverse :: cutFrom sep {} [] cs
    else cutFrom sep (n.next c) (c :: current) cs

/-- The trimmed nonempty parts of a text between top-level separators. -/
def splitTop (sep : Char → Bool) (cs : List Char) : List (List Char) :=
  ((cutFrom sep {} [] cs).map Text.trim).filter fun part => !part.isEmpty

/-- The parts of a string between top-level separators; only a single character separates. -/
def splitTopLevel (text separator : String) : List String :=
  (splitTop (fun c => separator.toList == [c]) text.toList).map String.ofList

/-- The parts of a trimmed text between top-level blanks. -/
def splitBlanks (cs : List Char) : List (List Char) :=
  (cutFrom Text.isBlank {} [] (Text.trim cs)).filter fun part => !part.isEmpty

/-- The blank-separated tokens of a value. -/
def valueTokens (value : String) : List String :=
  (splitBlanks value.toList).map String.ofList

/--
Splits a declaration at its colon, the first one outside quotes and parentheses.  Here a closing
parenthesis without a partner counts against a later opening one.
-/
def colonFrom (quote : Option Char) (depth : Int) : List Char → Option (List Char × List Char)
  | [] => none
  | c :: cs =>
    let keep (found : Option (List Char × List Char)) :=
      found.map fun (before, after) => (c :: before, after)
    match quote with
    | some q => keep (colonFrom (if c == q then none else some q) depth cs)
    | none =>
      if c == '"' || c == '\'' then keep (colonFrom (some c) depth cs)
      else if c == '(' then keep (colonFrom none (depth + 1) cs)
      else if c == ')' then keep (colonFrom none (depth - 1) cs)
      else if c == ':' && depth == 0 then some ([], cs)
      else keep (colonFrom none depth cs)

/-- The text before and after the colon of a declaration. -/
def splitColon? (cs : List Char) : Option (List Char × List Char) :=
  colonFrom none 0 cs

end Restyle.Css
