import Restyle.Css.Rule
import Restyle.Css.Split
import Restyle.Style.Value

/-!
# Key paths of pseudo selectors

A nested rule whose selector is a row of pseudo-classes with at most one pseudo-element is kept under a
path of keys, the pseudo-element first.  Media, supports and container rules are keys of their own.
Every other selector has no path.
-/

namespace Restyle.Style

/-- The characters of the name of a pseudo-class or pseudo-element. -/
def isPseudoNameChar (c : Char) : Bool :=
  Text.isAsciiLetter c || c == '-'

/--
The length of a group in parentheses after its opening one, up to and including the closing one.
Inside the group one more level of parentheses may open.
-/
def groupTail? (inner : Bool) : List Char → Option Nat
  | [] => none
  | c :: cs =>
    if c == '(' then if inner then none else (groupTail? true cs).map (· + 1)
    else if c == ')' then if inner then (groupTail? false cs).map (· + 1) else some 1
    else (groupTail? inner cs).map (· + 1)

/-- A pseudo-class at the start of a text, with its arguments, and what follows it. -/
def pseudoClass? (cs : List Char) : Option (List Char × List Char) :=
  match cs with
  | ':' :: rest =>
    let name := rest.takeWhile isPseudoNameChar
    let after := rest.dropWhile isPseudoNameChar
    if name.isEmpty then none
    else
      match after with
      | '(' :: more =>
        match groupTail? false more with
        | some n => some (':' :: name ++ '(' :: more.take n, more.drop n)
        | none => some (':' :: name, after)
      | _ => some (':' :: name, after)
  | _ => none

/-- The row of pseudo-classes at the start of a text, and what follows it. -/
def pseudoClasses : Nat → List Char → List Char × List Char
  | 0, cs => ([], cs)
  | fuel + 1, cs =>
    match pseudoClass? cs with
    | some (written, rest) =>
      let (more, rest) := pseudoClasses fuel rest
      (written ++ more, rest)
    | none => ([], cs)

/-- Whether a text is a pseudo-element and nothing else. -/
def isPseudoElementText (cs : List Char) : Bool :=
  match cs with
  | ':' :: ':' :: name => !name.isEmpty && name.all isPseudoNameChar
  | _ => false

/-- The key path of a simple pseudo selector. -/
def pseudoPath? (selector : String) : Option (List String) :=
  let cs := Text.trim selector.toList
  let cs := if Text.startsWith [':'] cs then '&' :: cs else cs
  match cs with
  | '&' :: rest =>
    let (classes, rest) := pseudoClasses rest.length rest
    let classPath := if classes.isEmpty then [] else [String.ofList classes]
    if rest.isEmpty then some classPath
    else if isPseudoElementText rest then some (String.ofList rest :: classPath)
    else none
  | _ => none

/-- The key paths of the members of a selector, all of them or none. -/
def nestedPaths? (selector : String) : Option (List (List String)) :=
  if Css.isAtRule selector then
    if Key.isConditionAtRuleText selector then some [[selector]] else none
  else
    match (Css.splitTopLevel selector ",").mapM pseudoPath? with
    | some [] => none
    | paths => paths

end Restyle.Style
