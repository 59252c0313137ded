import Restyle.Module.Basic

/-!
# Imports of a module
-/

namespace Restyle.Module

open Restyle.Tsx (Node)

/-- A local name that an import statement binds. -/
structure ImportBinding where
  localName : String
  /-- The exported name; `default` and `*` stand for the default export and for all exports. -/
  imported : String
  source : String
  isTypeOnly : Bool := false
  deriving DecidableEq, Repr

/-- An import statement with its bindings. -/
structure ImportStatement where
  node : Node
  source : String
  bindings : List ImportBinding

/-- The imports of a module. -/
structure Imports where
  statements : List ImportStatement := []
  byLocal : Table ImportBinding := []

namespace Imports

/-- The binding of a local name. -/
def lookup (t : Imports) (localName : String) : Option ImportBinding :=
  t.byLocal.get? localName

/-- The local name of an export of a module. -/
def localFor? (t : Imports) (source imported : String) : Option String :=
  (t.byLocal.values.find? fun b => b.source == source && b.imported == imported).map
    ImportBinding.localName

/-- The bindings of one part of an import clause. -/
def bindingsOf (source : String) (typeOnly : Bool) (part : Node) : List ImportBinding :=
  match part.kind with
  | .identifier => [⟨part.text, "default", source, typeOnly⟩]
  | .namespaceImport =>
    (part.named.find? Node.isIdentifier).toList.map fun n => ⟨n.text, "*", source, typeOnly⟩
  | .namedImports =>
    part.named.filterMap fun spec =>
      if spec.kind == .importSpecifier then
        (spec.child? .name).map fun name =>
          let imported := if name.kind == .string then Tsx.stringValue name.text else name.text
          { localName := ((spec.child? .alias).map Node.text).getD imported
            imported
            source
            isTypeOnly := typeOnly || spec.hasToken "type" }
      else none
  | _ => []

/-- The import statement of a node. -/
def statement? (n : Node) : Option ImportStatement :=
  if n.kind == .importStatement then
    (n.child? .source).map fun sourceNode =>
      let source := Tsx.stringValue sourceNode.text
      let clauses := n.named.filter fun c => c.kind == .importClause
      { node := n
        source
        bindings := clauses.flatMap fun c => c.named.flatMap (bindingsOf source (n.hasToken "type")) }
  else none

/-- The imports of a module. -/
def ofModule (m : Module) : Imports :=
  let statements := m.root.named.filterMap statement?
  { statements
    byLocal := Table.ofList ((statements.flatMap ImportStatement.bindings).map fun b =>
      (b.localName, b)) }

/-- The local names of the exports of the library; its default export counts as `styled`. -/
def libraryNames (t : Imports) : Table String :=
  Table.ofList ((t.byLocal.values.filter fun b => b.source == library).map fun b =>
    (if b.imported == "default" then "styled" else b.imported, b.localName))

end Imports

end Restyle.Module
