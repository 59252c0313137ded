import Restyle.Module.Imports
import Restyle.Style.Naming

/-!
# Declarations of a module

The declarations at the top of a module that a conversion works on: components, animations and style
mixins.  Each is a tagged template, which is cut into literal segments and the expressions between
them.
-/

namespace Restyle.Module

open Restyle.Tsx (Node)

/-- A template cut at its substitutions; there is one segment more than expressions. -/
structure TemplateParts where
  segments : List String
  expressions : List Node

/-- A declared component. -/
structure StyledDeclaration where
  name : String
  /-- The tag or the component that is styled. -/
  base : String
  baseIsIntrinsic : Bool
  template : TemplateParts
  statement : Node
  /-- The argument of `attrs`. -/
  attrs : Option Node := none
  /-- The argument of `withConfig`. -/
  config : Option Node := none
  typeArguments : Option String := none
  isExported : Bool := false
  location : Location

/-- What a helper declaration stands for. -/
inductive HelperKind where
  | keyframes
  | css
  deriving DecidableEq, Repr

/-- A declared animation or mixin. -/
structure HelperDeclaration where
  name : String
  kind : HelperKind
  template : TemplateParts
  statement : Node
  isExported : Bool := false
  location : Location

/-- The declarations of a module, each kind in source order. -/
structure Declarations where
  styled : List StyledDeclaration := []
  keyframes : List HelperDeclaration := []
  mixins : List HelperDeclaration := []

/-- Whether there is nothing to convert. -/
def Declarations.isEmpty (d : Declarations) : Bool :=
  d.styled.isEmpty && d.keyframes.isEmpty && d.mixins.isEmpty

/-- The segments and expressions of a template from an offset on. -/
def partsFrom (m : Module) (stop : Nat) : Nat → List Node → TemplateParts
  | cursor, [] => ⟨[m.slice cursor stop], []⟩
  | cursor, n :: ns =>
    let rest := partsFrom m stop n.stop ns
    ⟨m.slice cursor n.start :: rest.segments, (n.operands.head?.getD n) :: rest.expressions⟩

/-- The segments and expressions of a template. -/
def templateParts (m : Module) (template : Node) : TemplateParts :=
  let substitutions := template.children.filter fun c => c.kind == .templateSubstitution
  partsFrom m (template.stop - 1) (template.start + 1) substitutions

/-- What the tag of a component says. -/
structure TagChain where
  base : String
  intrinsic : Bool
  attrs : Option Node := none
  config : Option Node := none
  typeArguments : Option Node := none

/-- The base that the first argument of the factory names. -/
def baseOf? (argument : Node) : Option (String × Bool) :=
  let n := argument.unwrap
  match n.kind with
  | .string => some (Tsx.stringValue n.text, true)
  | .identifier | .member => some (n.text, false)
  | _ => none

/--
Follows `styled.tag.attrs(…).withConfig(…)` back to its base.  Every step goes to a node inside, so the
length of the tag is fuel enough.
-/
def chainFrom (factory : String) : Nat → TagChain → Node → Option TagChain
  | 0, _, _ => none
  | fuel + 1, chain, n =>
    match n.kind with
    | .member => do
      let object ← n.child? .object
      let property ← n.child? .property
      if object.isIdentifier && object.text == factory then
        some { chain with base := property.text, intrinsic := true }
      else none
    | .call => do
      let callee ← n.child? .function
      let arguments ← n.child? .arguments
      if arguments.kind != .arguments then none
      let chain := { chain with typeArguments := chain.typeArguments.or (n.child? .typeArguments) }
      if callee.isIdentifier && callee.text == factory then
        let (base, intrinsic) ← arguments.operands.head?.bind baseOf?
        some { chain with base, intrinsic }
      else if callee.kind == .member then
        let first ← arguments.operands.head?
        let object ← callee.child? .object
        match ((callee.child? .property).map Node.text).getD "" with
        | "attrs" =>
          if chain.attrs.isSome then none
          else chainFrom factory fuel { chain with attrs := some first } object
        | "withConfig" =>
          if chain.config.isSome then none
          else chainFrom factory fuel { chain with config := some first } object
        | _ => none
      else none
    | _ => none

/-- What a tag says about its component. -/
def tagChain? (factory : String) (tag : Node) : Option TagChain :=
  chainFrom factory (tag.text.length + 1) { base := "", intrinsic := true } tag

/-- Whether a statement is exported, and its variables. -/
def declarators (statement : Node) : Bool × List Node :=
  let declared :=
    if statement.kind == .exportStatement then (statement.child? .declaration).map (true, ·)
    else some (false, statement)
  match declared with
  | none => (false, [])
  | some (exported, d) =>
    if d.kind == .lexicalDeclaration || d.kind == .variableDeclaration then
      (exported, d.named.filter fun c => c.kind == .variableDeclarator)
    else (exported, [])

/-- One declaration of a module. -/
inductive Declared where
  | styled (d : StyledDeclaration)
  | helper (d : HelperDeclaration)

/-- The text of type arguments without brackets. -/
def withoutAngles (text : String) : String :=
  let text := Text.strip text
  if Text.hasLead "<" text && Text.hasTail ">" text then Text.strip (Text.inner text) else text

/-- The declaration that a statement makes. -/
def declared? (m : Module) (names : Table String) (statement : Node) : Option Declared := do
  let (isExported, [declarator]) := declarators statement | none
  let nameNode ← declarator.child? .name
  if !nameNode.isIdentifier then none
  let value ← declarator.child? .value
  let (tag, template) ← value.taggedTemplate?
  let name := nameNode.text
  let parts := templateParts m template
  let location := m.locationOf declarator
  let helper (kind : HelperKind) : Declared :=
    .helper { name, kind, template := parts, statement, isExported, location }
  if tag.isIdentifier && names.get? "keyframes" == some tag.text then some (helper .keyframes)
  else if tag.isIdentifier && names.get? "css" == some tag.text then some (helper .css)
  else
    let factory ← names.get? "styled"
    let chain ← tagChain? factory tag
    some (.styled {
      name
      base := chain.base
      baseIsIntrinsic := chain.intrinsic
      template := parts
      statement
      attrs := chain.attrs
      config := chain.config
      typeArguments :=
        (m.tagType? template.start).or (chain.typeArguments.map fun n => withoutAngles n.text)
      isExported
      location })

/-- The declarations of a module. -/
def Declarations.ofModule (m : Module) (names : Table String) : Declarations :=
  let all := m.root.named.filterMap (declared? m names)
  let helpers (kind : HelperKind) : List HelperDeclaration :=
    all.filterMap fun
      | .helper d => if d.kind == kind then some d else none
      | .styled _ => none
  { styled := all.filterMap fun
      | .styled d => some d
      | .helper _ => none
    keyframes := helpers .keyframes
    mixins := helpers .css }

/--
The registry keys of the mixins of a module.  A key that a component has already is marked as that of a
mixin.
-/
def Declarations.mixinKeys (d : Declarations) : Table String :=
  let taken := d.styled.map fun s => Style.styleKey s.name
  Table.ofList (d.mixins.map fun m =>
    let key := Style.styleKey m.name
    (m.name, if taken.contains key then key ++ "Mixin" else key))

/-- The names that a module binds to literal texts. -/
def stringConstants (m : Module) : Table String :=
  Table.ofList (m.root.named.flatMap fun statement =>
    (declarators statement).2.filterMap fun declarator => do
      let name ← declarator.child? .name
      let value ← declarator.child? .value
      let value := value.unwrap
      if !name.isIdentifier then none
      match value.kind with
      | .string => some (name.text, Tsx.stringValue value.text)
      | .templateString =>
        if value.hasSubstitutions then none else some (name.text, Text.inner value.text)
      | _ => none)

end Restyle.Module
