import Restyle.Module.Declarations

/-!
# Features without a counterpart

Before a module is converted it is searched for features of the library that have no counterpart.  Each
kind is reported once.  Components with extra properties, and components that raise the weight of a
selector for another component, are left as they are.
-/

namespace Restyle.Module

open Restyle.Tsx (Node)

/-- What the search has found. -/
structure Findings where
  /-- Components that must stay as they are. -/
  skipped : List String := []
  count : Nat := 0
  diagnostics : Diagnostics := {}

namespace Findings

/-- Reports a kind of finding unless it has been reported before. -/
def add (f : Findings) (m : Module) (kind : DiagnosticKind) (n : Node)
    (context : List (String × String)) : Findings :=
  let (diagnostics, isNew) := f.diagnostics.reportOnce ""
    { kind, location := some (m.locationOf n), context := context.map fun (k, v) => (k, .str v) }
  { f with diagnostics, count := if isNew then f.count + 1 else f.count }

/-- Marks a component as one that must stay as it is. -/
def skip (f : Findings) (name : String) : Findings :=
  { f with skipped := if f.skipped.contains name then f.skipped else f.skipped ++ [name] }

/-- Whether something was found. -/
def found (f : Findings) : Bool := 0 < f.count

end Findings

/-- The first call of the function for global styles. -/
def globalStyleCall? (m : Module) (names : Table String) : Option Node := do
  let localName ← names.get? "createGlobalStyle"
  m.root.walk.find? fun n =>
    n.kind == .call && (n.child? .function).any fun f => f.isIdentifier && f.text == localName

/-- The first call, other than of the factory itself, that takes the factory as an argument. -/
def factoryCall? (m : Module) (names : Table String) : Option Node := do
  let factory ← names.get? "styled"
  let isFactory (n : Node) : Bool := n.isIdentifier && n.text == factory
  m.root.walk.find? fun n =>
    n.kind == .call && (n.child? .function).any (fun f => !isFactory f) &&
      (n.child? .arguments).any fun a => a.kind == .arguments && a.named.any isFactory

/-- Assignments to properties of components, with the names of the components. -/
def staticProperties (m : Module) (components : List String) : List (Node × String) :=
  m.root.walk.filterMap fun n =>
    if n.kind == .assignment then do
      let left ← n.child? .left
      if left.kind != .member then none
      let object ← left.child? .object
      if object.isIdentifier && components.contains object.text then some (n, object.text) else none
    else none

/-- Whether a doubled parent sign is followed by a substitution in the same selector. -/
def signThenSlot (cs : List Char) : Bool :=
  match Text.after? ['&', '&'] cs with
  | none => false
  | some rest =>
    let run := rest.takeWhile fun c => c != '{' && c != '}' && c != ';'
    run.getLast? == some '$' && (rest.drop run.length).head? == some '{'

/-- Whether a substitution is followed by a doubled parent sign. -/
def slotThenSign (cs : List Char) : Bool :=
  match Text.after? ['$', '{'] cs with
  | none => false
  | some rest =>
    match rest.dropWhile (· != '}') with
    | _ :: after => Text.startsWith ['&', '&'] (Text.trimStart after)
    | [] => false

/-- Whether a template raises the weight of a selector for another component. -/
def raisesComponentSelector : List Char → Bool
  | [] => false
  | c :: cs => signThenSlot (c :: cs) || slotThenSign (c :: cs) || raisesComponentSelector cs

/-- Searches a module. -/
def findUnsupported (m : Module) (declarations : Declarations) (names : Table String)
    (diagnostics : Diagnostics) : Findings :=
  let start : Findings := { diagnostics := diagnostics }
  let f := match globalStyleCall? m names with
    | some n => start.add m .createGlobalStyle n []
    | none => start
  let f := match factoryCall? m names with
    | some n => f.add m .hocStyledFactory n []
    | none => f
  let f := (staticProperties m (declarations.styled.map (·.name))).foldl
    (fun f (n, name) => (f.add m .staticProperties n [("component", name)]).skip name) f
  declarations.styled.foldl
    (fun f d =>
      if raisesComponentSelector ("$\x7b\x7d".intercalate d.template.segments).toList then
        (f.add m .specificityHack d.statement [("component", d.name)]).skip d.name
      else f) f

end Restyle.Module
