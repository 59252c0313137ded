import Restyle.Interpolation.Decision
import Restyle.Module.Basic
import Restyle.Plan.Basic
import Restyle.Style.Render

/-!
# Function components

The function component that takes the place of a declaration.  Its own styles come first; styles from
outside are merged last, by the merger of the project if there is one.
-/

namespace Restyle.Emit

open Restyle.Interpolation (StyleMerger)

/-- How function components are written. -/
structure WrapperStyle where
  library : String := "stylex"
  isTyped : Bool := true
  merger : Option StyleMerger := none
  /-- Names of types that are taken. -/
  reserved : List String := []

/-- What the emitted components refer to. -/
structure WrapperNeeds where
  reactTypes : Bool := false
  merger : Bool := false
  library : Bool := false
  deriving DecidableEq, Repr

namespace WrapperNeeds

/-- The needs of two texts. -/
def join (a b : WrapperNeeds) : WrapperNeeds :=
  { reactTypes := a.reactTypes || b.reactTypes
    merger := a.merger || b.merger
    library := a.library || b.library }

end WrapperNeeds

/-- The local name of the element that `as` gives. -/
def polymorphicName : String := "Component"

/-- A text in braces. -/
def braced (s : String) : String := "\x7b" ++ s ++ "\x7d"

/-- The name of the type of the props. -/
def propsTypeName (w : WrapperStyle) (p : ComponentPlan) : String :=
  let name := p.name ++ "Props"
  if w.reserved.contains name then "Styled" ++ name else name

/-- The type of the props of the element. -/
def elementPropsType (p : ComponentPlan) : String :=
  let props :=
    if p.elementIsIntrinsic then "React.ComponentProps<\"" ++ p.element ++ "\">"
    else "React.ComponentProps<typeof " ++ p.element ++ ">"
  if p.acceptsStyles then props else "Omit<" ++ props ++ ", \"className\" | \"style\">"

/-- The members that the component adds to the props of its element. -/
def addedMembers (p : ComponentPlan) : List String :=
  let siblings := p.component.siblingSelectors.map (·.propName)
  let untyped :=
    if (p.component.typeArguments.getD "").isEmpty then
      p.takenProps.filter fun prop => !siblings.contains prop
    else []
  Text.firstOccurrences
    ((if p.isPolymorphic then ["as?: React.ElementType;"] else []) ++
      siblings.map (· ++ "?: boolean;") ++
      untyped.map fun prop => Style.renderKey (.name prop) ++ "?: any;")

/-- The type of the props. -/
def propsType (p : ComponentPlan) : String :=
  let members := addedMembers p
  let own := (p.component.typeArguments.filter fun t => !t.isEmpty).toList
  let added :=
    if members.isEmpty then []
    else [braced ("\n" ++ String.join (members.map fun m => "  " ++ m ++ "\n"))]
  " & ".intercalate (elementPropsType p :: own ++ added)

/-- The entries of the `style` prop. -/
def inlineEntries (p : ComponentPlan) : String :=
  ", ".intercalate (p.component.inlineStyles.map fun s =>
    Style.renderKey (.name s.property) ++ ": " ++ s.expression)

/-- The attributes that apply the styles. -/
def styleAttributes (w : WrapperStyle) (p : ComponentPlan) (args : String) : List String :=
  let inline := inlineEntries p
  if !p.acceptsStyles then
    braced ("..." ++ w.library ++ ".props(" ++ args ++ ")") ::
      (if inline.isEmpty then [] else ["style=" ++ braced (braced (" " ++ inline ++ " "))])
  else
    match w.merger with
    | some merger =>
      let style := if inline.isEmpty then "style" else braced (" " ++ inline ++ ", ...style ")
      [braced ("..." ++ merger.functionName ++ "([" ++ args ++ "], className, " ++ style ++ ")")]
    | none =>
      let parts := ["...sx.style"] ++ (if inline.isEmpty then [] else [inline]) ++ ["...style"]
      ["className=" ++ braced "[sx.className, className].filter(Boolean).join(\" \")",
        "style=" ++ braced (braced (" " ++ ", ".intercalate parts ++ " "))]

/-- Whether there is nothing to apply, so that all props are passed on. -/
def isPassthrough (p : ComponentPlan) : Bool :=
  p.styleArgs.isEmpty && p.component.inlineStyles.isEmpty

/-- Whether styles from outside are merged with those of the component. -/
def mergesStyles (p : ComponentPlan) : Bool :=
  p.acceptsStyles && !isPassthrough p

/-- The props that the component takes for itself. -/
def takenNames (p : ComponentPlan) : List String :=
  let element := if p.elementIsIntrinsic then "\"" ++ p.element ++ "\"" else p.element
  (if p.isPolymorphic then ["as: " ++ polymorphicName ++ " = " ++ element] else []) ++
    (if mergesStyles p then ["className", "style"] else []) ++
    p.takenProps.filter fun prop => !(["className", "style", "as"].contains prop)

/-- The lines of a function component. -/
def wrapperLines (w : WrapperStyle) (p : ComponentPlan) : List String :=
  let args := ", ".intercalate (p.styleArgs.map StyleArg.text)
  let typeName := propsTypeName w p
  let lead := if p.component.isExported then "export " else ""
  let taken := takenNames p
  let attributes :=
    [braced ("..." ++ if taken.isEmpty then "props" else "rest")] ++
      p.staticAttrs.map (fun (key, value) => key ++ "=" ++ braced value) ++
      (if isPassthrough p then [] else styleAttributes w p args)
  let tag := if p.isPolymorphic then polymorphicName else p.element
  (if w.isTyped then
      ["type " ++ typeName ++ " = " ++ propsType p ++ ";", "",
        lead ++ "function " ++ p.name ++ "(props: " ++ typeName ++ ") \x7b"]
    else [lead ++ "function " ++ p.name ++ "(props) \x7b"]) ++
    (if taken.isEmpty then []
      else ["  const \x7b " ++ ", ".intercalate taken ++ ", ...rest \x7d = props;"]) ++
    (if mergesStyles p && w.merger.isNone then
      ["  const sx = " ++ w.library ++ ".props(" ++ args ++ ");"]
    else []) ++
    ["  return (", "    <" ++ tag] ++ attributes.map ("      " ++ ·) ++ ["    />", "  );", "\x7d"]

/-- A function component, what it refers to, and whether it can be read back. -/
structure Wrapper where
  text : String
  needs : WrapperNeeds
  isReadable : Bool

/-- The function component of a plan. -/
def wrapper (w : WrapperStyle) (p : ComponentPlan) : Wrapper :=
  let text := "\n".intercalate (wrapperLines w p)
  let isReadable := !(Module.read text (if w.isTyped then "wrapper.tsx" else "wrapper.jsx")).hasErrors
  { text
    isReadable
    needs :=
      { reactTypes := w.isTyped
        merger := mergesStyles p && w.merger.isSome
        library := isReadable && Text.mentions (w.library ++ ".") text } }

/-- What there is to say about a component that cannot be read back. -/
def unreadable (name : String) : String :=
  "Generated wrapper for " ++ name ++ " does not parse"

end Restyle.Emit
