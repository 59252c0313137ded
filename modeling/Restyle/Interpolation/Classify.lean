import Restyle.Module.Imports

/-!
# Kinds of slots

The expression of a slot is classified by its form, in a fixed order of cases: names of animations and
mixins, functions of the props, and calls of imported functions.  All else is raw.  The class depends
only on the text of the expression and on what is known about the module.
-/

namespace Restyle.Interpolation

open Restyle.Style (Value)
open Restyle.Tsx (Node Arrow)

/-- The class of an expression. -/
inductive Tag where
  | themeAccess
  | propAccess
  | conditional
  | logical
  | helperCall
  | keyframesRef
  | raw
  deriving DecidableEq, Repr

/-- The word for a class. -/
def Tag.text : Tag → String
  | .themeAccess => "theme-access"
  | .propAccess => "prop-access"
  | .conditional => "conditional"
  | .logical => "logical"
  | .helperCall => "helper-call"
  | .keyframesRef => "keyframes-ref"
  | .raw => "raw"

/-- What is known about the module around an expression. -/
structure Surroundings where
  styled : List String := []
  keyframes : List String := []
  mixins : List String := []
  imports : Module.Imports := {}
  /-- The local name of the tag for style blocks. -/
  cssName : Option String := none

/-- A classified expression; only the fields that go with the class are set. -/
structure Classified where
  tag : Tag := .raw
  source : String
  index : Int := -1
  param : Option String := none
  path : List String := []
  comparison : Option (String × Value) := none
  negated : Bool := false
  truthy : Value := .null
  falsy : Value := .null
  hasFalsyBranch : Bool := true
  fallback : Value := .null
  operator : Option String := none
  helperName : Option String := none
  importedName : Option String := none
  importSource : Option String := none
  arguments : List String := []
  keyframesName : Option String := none
  mixinName : Option String := none
  node : Option Node := none

namespace Classified

/-- Whether the path leads into the theme. -/
def isThemePath (c : Classified) : Bool :=
  c.path.head? == some "theme"

/-- The prop that is read or tested. -/
def propName? (c : Classified) : Option String :=
  if c.tag == .themeAccess || c.isThemePath then none else c.path.head?

end Classified

/-- The path that an expression takes from the props of a function. -/
def propsPath? (f : Arrow) (n : Node) : Option (List String) := do
  let path ← n.path?
  match path with
  | [] => none
  | first :: rest =>
    if f.param.any fun p => !p.isEmpty && p == first then
      if rest.isEmpty then none else some rest
    else if f.destructured.contains first then some path
    else none

/-- The value of a branch: a literal, or a style block without substitutions. -/
def branchValue? (around : Surroundings) (n : Node) : Option Value :=
  match n.literal? with
  | some v => some v
  | none => do
    let (tag, template) ← n.taggedTemplate?
    if around.cssName == some tag.text && !tag.text.isEmpty && !template.hasSubstitutions then
      some (.block (Text.inner template.text))
    else none

/-- A test of a prop. -/
structure PropTest where
  path : List String
  comparison : Option (String × Value) := none
  negated : Bool := false

/-- Operators that compare a prop with a literal. -/
def comparisons : List String := ["===", "!==", "==", "!="]

/-- The test that a comparison makes. -/
def comparisonTest? (f : Arrow) (n : Node) : Option PropTest := do
  let operator ← n.child? .operator
  if !comparisons.contains operator.text then none
  let left ← n.child? .left
  let right ← n.child? .right
  let path ← propsPath? f left
  let value ← right.literal?
  return { path, comparison := some (operator.text, value) }

mutual

/-- The test that an expression makes: a prop, a negated prop or a comparison. -/
def propTest? (f : Arrow) : Node → Option PropTest
  | ⟨kind, role, start, stop, text, children⟩ =>
    let self : Node := ⟨kind, role, start, stop, text, children⟩
    if self.isWrapper then propTestFirst? f children
    else
      match kind with
      | .unary =>
        if (self.child? .operator).any fun op => op.text == "!" then
          (propTestArgument? f children).bind fun inner =>
            if inner.comparison.isSome then none
            else some { path := inner.path, negated := !inner.negated }
        else none
      | .binary => comparisonTest? f self
      | _ => (propsPath? f self).map fun path => { path := path }

/-- The test of the first node that is no token. -/
def propTestFirst? (f : Arrow) : List Node → Option PropTest
  | [] => none
  | n :: ns => if n.kind == .token then propTestFirst? f ns else propTest? f n

/-- The test of an operand. -/
def propTestArgument? (f : Arrow) : List Node → Option PropTest
  | [] => none
  | n :: ns => if n.role == some .argument then propTest? f n else propTestArgument? f ns

end

/-- Sets the test of a conditional. -/
def Classified.withTest (c : Classified) (t : PropTest) : Classified :=
  { c with
    tag := .conditional
    path := t.path
    comparison := t.comparison
    negated := t.negated }

/-- Classifies a function of the props by its body. -/
def classifyArrow? (around : Surroundings) (base : Classified) (f : Arrow) (body : Node) :
    Option Classified :=
  match propsPath? f body with
  | some path =>
    match path with
    | "theme" :: rest =>
      if rest.isEmpty then some { base with tag := .propAccess, path }
      else some { base with tag := .themeAccess, path := rest }
    | [_] => some { base with tag := .propAccess, path }
    | _ => none
  | none =>
    match body.kind with
    | .ternary => do
      let test ← (body.child? .condition).bind (propTest? f)
      let truthy ← (body.child? .consequence).bind (branchValue? around)
      let falsy ← (body.child? .alternative).bind (branchValue? around)
      return { base.withTest test with truthy, falsy }
    | .binary => do
      let operator := ((body.child? .operator).map Node.text).getD ""
      let left ← body.child? .left
      let right ← body.child? .right
      if operator == "&&" then
        let test ← propTest? f left
        let truthy ← branchValue? around right
        return { base.withTest test with truthy, hasFalsyBranch := false }
      else if operator == "||" || operator == "??" then
        let path ← propsPath? f left
        let fallback ← right.literal?
        return { base with tag := .logical, path, fallback, operator := some operator }
      else none
    | _ => none

/-- Classifies a call of an imported function. -/
def classifyCall? (around : Surroundings) (base : Classified) (n : Node) : Option Classified := do
  let (callee, arguments) ← n.call?
  let path ← callee.path?
  let first ← path.head?
  let binding ← around.imports.lookup first
  return { base with
    tag := .helperCall
    helperName := some (".".intercalate path)
    importedName := some (".".intercalate (binding.imported :: path.drop 1))
    importSource := some binding.source
    arguments := arguments.map Node.text }

/-- Classifies an expression. -/
def classify (around : Surroundings) (index : Int) (n : Node) : Classified :=
  let base : Classified := { source := n.text, index, node := some n }
  let inner := n.unwrap
  if inner.isIdentifier then
    if around.keyframes.contains inner.text then
      { base with tag := .keyframesRef, keyframesName := some inner.text }
    else if around.mixins.contains inner.text then
      { base with tag := .helperCall, mixinName := some inner.text, helperName := some inner.text }
    else base
  else
    match inner.arrow? with
    | some f =>
      let base := { base with param := f.param }
      (f.body.bind (classifyArrow? around base f)).getD base
    | none => (classifyCall? around base inner).getD base

/-- Classifies the text of an expression; a text that is none is raw. -/
def classifyText (around : Surroundings) (index : Int) (text : String) : Classified :=
  match Tsx.readExpression text with
  | .ok n => classify around index n
  | .error _ => { source := text, index }

end Restyle.Interpolation
