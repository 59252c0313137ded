import Restyle.Adapter.Imports
import Restyle.Module.Edit
import Restyle.Module.Imports
import Restyle.Trace

/-!
# The import block after the conversion

Bindings of the styling library that nothing refers to any more go away, and requested imports are added
after the imports that stay, unless the module has them already.
-/

namespace Restyle.Emit

open Restyle.Adapter (ImportSpec)
open Restyle.Module (Edit ImportBinding ImportStatement Imports)

/-- The text of a named binding. -/
def renderBinding (allTypes : Bool) (b : ImportBinding) : String :=
  let text := if b.imported == b.localName then b.imported else b.imported ++ " as " ++ b.localName
  if b.isTypeOnly && !allTypes then "type " ++ text else text

/-- An import statement for bindings of one module. -/
def renderImport (source : String) (bindings : List ImportBinding) : String :=
  let allTypes := !bindings.isEmpty && bindings.all (·.isTypeOnly)
  let first (imported : String) : Option ImportBinding := bindings.find? fun b => b.imported == imported
  let named := bindings.filter fun b => b.imported != "default" && b.imported != "*"
  let clause :=
    ((first "default").map (·.localName)).toList ++
      ((first "*").map fun b => "* as " ++ b.localName).toList ++
      (if named.isEmpty then []
        else ["\x7b " ++ ", ".intercalate (named.map (renderBinding allTypes)) ++ " \x7d"])
  (if allTypes then "import type " else "import ") ++ ", ".intercalate clause ++ " from " ++
    Text.quote source ++ ";"

/-- The bindings of a requested import in a file, for a given working directory. -/
def bindingsOf (directory file : String) (spec : ImportSpec) : List ImportBinding :=
  let source := spec.source.specifier directory file
  let whole := spec.wholeName.filter fun n => !n.isEmpty
  whole.toList.map (fun n => { localName := n, imported := "*", source }) ++
    spec.names.map fun n => { localName := n.binding, imported := n.imported, source }

/-- An imported namespace. -/
def wholeImport (source localName : String) : ImportSpec :=
  { source := { value := source }, wholeName := some localName }

/-- An imported name. -/
def namedImport (source imported : String) (localName : Option String := none) : ImportSpec :=
  { source := { value := source }, names := [{ imported := imported, localName := localName }] }

/-- An import statement to be added or removed, for the trace. -/
structure ImportNote where
  action : String
  source : String
  names : List String

/-- What is known about the imports of a module. -/
structure ImportBlock where
  source : Module
  imports : Imports
  /-- The local names of the styling library that are still used. -/
  keep : List String

namespace ImportBlock

/-- The import statements of the styling library. -/
def libraryStatements (b : ImportBlock) : List ImportStatement :=
  b.imports.statements.filter fun s => s.source == Module.library

/-- The bindings of a statement that stay. -/
def kept (b : ImportBlock) (s : ImportStatement) : List ImportBinding :=
  s.bindings.filter fun binding => b.keep.contains binding.localName

/-- Whether a statement of the styling library loses bindings. -/
def isPruned (b : ImportBlock) (s : ImportStatement) : Bool :=
  s.bindings.isEmpty || (b.kept s).length != s.bindings.length

/-- The edit of a statement that loses bindings. -/
def pruneEdit (b : ImportBlock) (s : ImportStatement) : Edit :=
  let kept := b.kept s
  if kept.isEmpty then
    let (start, stop) := Module.statementRange b.source.bytes s.node.start s.node.stop
    Edit.deletion start stop
  else { start := s.node.start, stop := s.node.stop, text := renderImport s.source kept }

/-- The note on a statement that loses bindings. -/
def pruneNote (b : ImportBlock) (s : ImportStatement) : ImportNote :=
  { action := "remove", source := s.source
    names := (s.bindings.map (·.localName)).filter fun n => !b.keep.contains n }

/-- The bindings that the module lacks, each local name once. -/
def missing (b : ImportBlock) (bindings : List ImportBinding) : List ImportBinding :=
  bindings.foldl
    (fun found binding =>
      let isKnown := (b.imports.lookup binding.localName).any fun known =>
        known.source == binding.source && known.imported == binding.imported
      if isKnown || found.any fun f => f.localName == binding.localName then found
      else found ++ [binding])
    []

/-- Bindings by the module that they come from. -/
def grouped (bindings : List ImportBinding) : Table (List ImportBinding) :=
  bindings.foldl
    (fun groups b => groups.set b.source (((groups.get? b.source).getD []) ++ [b])) []

/-- The statements for missing bindings of one module; a namespace has a statement of its own. -/
def statementsFor (source : String) (bindings : List ImportBinding) : List String :=
  let others := bindings.filter fun b => b.imported != "*"
  (bindings.filter fun b => b.imported == "*").map (fun b => renderImport source [b]) ++
    (if others.isEmpty then [] else [renderImport source others])

/-- Whether a statement goes away. -/
def isRemoved (b : ImportBlock) (s : ImportStatement) : Bool :=
  s.source == Module.library && (b.kept s).isEmpty

/-- Where new statements go: after the last import that stays, or else after the directives. -/
def insertionPoint (b : ImportBlock) : Nat :=
  match (b.imports.statements.filter fun s => !b.isRemoved s).getLast? with
  | some s => s.node.stop
  | none =>
    let isDirective (n : Tsx.Node) : Bool :=
      n.kind == .expressionStatement && (n.named.head?.any fun c => c.kind == .string)
    ((b.source.root.named.takeWhile isDirective).getLast?.map (·.stop)).getD 0

/-- The edits of the block for requested imports, with notes for the trace. -/
def edits (b : ImportBlock) (requested : List ImportBinding) : List Edit × List ImportNote :=
  let pruned := b.libraryStatements.filter b.isPruned
  let added := (grouped requested).filterMap fun (source, bindings) =>
    let lacking := b.missing bindings
    if lacking.isEmpty then none else some (source, lacking)
  let lines := added.flatMap fun (source, bindings) => statementsFor source bindings
  let place := b.insertionPoint
  let text := "\n".intercalate lines
  let insertions :=
    if lines.isEmpty then []
    else if place == 0 then [Edit.insertion 0 (text ++ "\n") (-1)]
    else [Edit.insertion place ("\n" ++ text) 1]
  (pruned.map b.pruneEdit ++ insertions,
    pruned.map b.pruneNote ++ added.map fun (source, bindings) =>
      { action := "add", source, names := bindings.map (·.localName) })

/-- Notes import actions in a trace. -/
def note (notes : List ImportNote) (t : Trace) : Trace :=
  notes.foldl (fun t n => t.importAction n.action n.source n.names) t

end ImportBlock

end Restyle.Emit
