import Restyle.Diagnostic
import Restyle.Module.TypeArguments
import Restyle.Table
import Restyle.Tsx.Shape
import Restyle.Tsx.Source

/-!
# Modules

A module is its text together with its tree.  All offsets count bytes, and lines and columns count
from one.
-/

namespace Restyle

open Restyle.Tsx (Node)

/-- A module that has been read. -/
structure Module where
  text : String
  bytes : List UInt8
  root : Node
  hasErrors : Bool
  path : String := "input.tsx"
  /-- The types that tags take, under the offsets of their templates. -/
  tagTypes : List (Nat × String) := []

namespace Module

/-- The name of the library whose declarations are converted. -/
def library : String := "styled-components"

/-- The local names that import statements of the library bind to single exports. -/
def tagNames (root : Node) : List String :=
  root.named.flatMap fun statement =>
    let source := if statement.kind == .importStatement then statement.child? .source else none
    if source.any fun s => Text.inner s.text == library then
      (statement.named.filter fun c => c.kind == .importClause).flatMap fun clause =>
        clause.named.flatMap fun part =>
          match part.kind with
          | .identifier => [part.text]
          | .namedImports =>
            part.named.filterMap fun spec =>
              if spec.kind == .importSpecifier then
                ((spec.child? .alias).or (spec.child? .name)).map Node.text
              else none
          | _ => []
    else []

/-- Reads a module; types that tags take are blanked out and kept aside. -/
def read (text : String) (path : String) : Module :=
  let bytes := Text.encode text
  let source := Tsx.Source.read text
  match TypeSpan.findAll bytes (tagNames source.root) with
  | [] => { text, bytes, root := source.root, hasErrors := source.hasErrors, path }
  | spans =>
    let source := Tsx.Source.read ((Text.decode? (TypeSpan.blank bytes spans)).getD "")
    { text, bytes, root := source.root, hasErrors := source.hasErrors, path,
      tagTypes := spans.map fun s => (s.template, s.text bytes) }

/-- The text between two offsets. -/
def slice (m : Module) (start stop : Nat) : String :=
  (Text.decode? (Text.sliceBytes m.bytes start stop)).getD ""

/-- The line and column of an offset. -/
def locate (m : Module) (offset : Nat) : Location :=
  let before := m.bytes.take offset
  { line := (before.filter (· == Text.lineBreak)).length + 1
    column := (before.reverse.takeWhile (· != Text.lineBreak)).length + 1 }

/-- The line and column where a node starts. -/
def locationOf (m : Module) (n : Node) : Location :=
  m.locate n.start

/-- Whether a path names a module with types. -/
def isTypedPath (path : String) : Bool :=
  Text.hasTail ".ts" path || Text.hasTail ".tsx" path

/-- Whether a module has types. -/
def isTyped (m : Module) : Bool :=
  isTypedPath m.path

/-- The type that the tag of a template takes. -/
def tagType? (m : Module) (template : Nat) : Option String :=
  (m.tagTypes.reverse.find? fun (offset, _) => offset == template).map (·.2)

/-- The names of the types that the statements of a module declare. -/
def declaredTypes (m : Module) : List String :=
  m.root.named.filterMap fun statement =>
    let declared :=
      if statement.kind == .exportStatement then statement.child? .declaration else some statement
    declared.bind fun d =>
      if d.kind == .typeAlias || d.kind == .interfaceDeclaration then
        (d.child? .name).map fun name => m.slice name.start name.stop
      else none

end Module

end Restyle
