import Restyle.Module.Basic

/-!
# Uses of components

Where a module renders components: the elements with their attributes, and the names that are used as
values.
-/

namespace Restyle.Module

open Restyle.Tsx (Node)

/-- An attribute of an element; a spread has no name. -/
structure ElementAttribute where
  node : Node
  name : Option String := none
  value : Option Node := none

namespace ElementAttribute

/-- Whether attributes are spread. -/
def isSpread (a : ElementAttribute) : Bool := a.name.isNone

/-- The value of an attribute that is a literal text. -/
def string? (a : ElementAttribute) : Option String := do
  let value ← a.value
  if value.kind == .string then some (Tsx.stringValue value.text)
  else
    match value.operands with
    | [inner] => if inner.kind == .string then some (Tsx.stringValue inner.text) else none
    | _ => none

end ElementAttribute

/-- Whether a node is an element. -/
def isElement (n : Node) : Bool :=
  n.kind == .jsxElement || n.kind == .jsxSelfClosing

/-- The first tag of an element. -/
def openingOf (element : Node) : Node :=
  if element.kind == .jsxElement then
    ((element.child? .openTag).or element.named.head?).getD element
  else element

/-- The last tag of an element. -/
def closingOf? (element : Node) : Option Node :=
  if element.kind == .jsxElement then element.child? .closeTag else none

/-- The name of an element. -/
def elementName (element : Node) : String :=
  (((openingOf element).child? .name).map Node.text).getD ""

/-- The attributes of a tag. -/
def attributesOf (opening : Node) : List ElementAttribute :=
  opening.named.filterMap fun c =>
    match c.kind with
    | .jsxAttribute =>
      some {
        node := c
        name := some ((c.named.head?.map Node.text).getD "")
        value := (c.named.drop 1).head? }
    | .jsxExpression =>
      if c.named.any fun inner => inner.kind == .spread then some { node := c } else none
    | _ => none

/-- An element that renders a component. -/
structure Usage where
  element : Node
  opening : Node
  closing : Option Node
  name : String
  attributes : List ElementAttribute

namespace Usage

/-- The usage that an element makes. -/
def ofElement (element : Node) : Usage :=
  let opening := openingOf element
  { element, opening, closing := closingOf? element, name := elementName element
    attributes := attributesOf opening }

/-- The attribute of a name. -/
def attribute? (u : Usage) (name : String) : Option ElementAttribute :=
  u.attributes.find? fun a => a.name == some name

/-- Whether attributes are spread into the element. -/
def hasSpread (u : Usage) : Bool :=
  u.attributes.any ElementAttribute.isSpread

/-- The names in both tags. -/
def nameNodes (u : Usage) : List Node :=
  (u.opening.child? .name).toList ++ (u.closing.bind (·.child? .name)).toList

/-- Where new attributes go. -/
def insertOffset (u : Usage) : Nat :=
  match u.attributes.getLast? with
  | some a => a.node.stop
  | none =>
    match u.opening.child? .typeArguments, u.opening.child? .name with
    | some t, _ => t.stop
    | none, some n => n.stop
    | none, none => u.opening.start + 1

end Usage

/-- The elements right inside an element. -/
def childElements (element : Node) : List Node :=
  if element.kind == .jsxElement then element.named.filter isElement else []

/-- The usages of some components, in source order. -/
def usagesOf (m : Module) (names : List String) : List Usage :=
  (m.root.walk.filter isElement).filterMap fun e =>
    if names.contains (elementName e) then some (Usage.ofElement e) else none

/-- Whether a node is a tag of an element. -/
def isTag (n : Node) : Bool :=
  n.kind == .jsxOpening || n.kind == .jsxClosing || n.kind == .jsxSelfClosing

/-- Names that are used other than as the names of tags, outside the given nodes. -/
def valueReferences (m : Module) (names : List String) (skip : List Node) : List String :=
  Text.firstOccurrences ((Node.walkWithParent none m.root).filterMap fun (n, parent) =>
    if !n.isIdentifier || !names.contains n.text then none
    else if skip.any fun s => s.start ≤ n.start && n.start < s.stop then none
    else if n.role == some .name && parent.any isTag then none
    else some n.text)

end Restyle.Module
