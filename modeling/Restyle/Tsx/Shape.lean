import Restyle.Decimal.Reader
import Restyle.Style.Value
import Restyle.Tsx.Node

/-!
# Shapes of expressions

Questions about an expression that are settled by its form alone: the value of a literal, the path of a
chain of accesses, the parts of a function with at most one parameter, of an object and of a call.
Parentheses and type annotations around an expression do not matter.
-/

namespace Restyle.Tsx

open Restyle.Style (Value)

namespace Node

/-- Whether a node only wraps an expression: parentheses around one node, or a type annotation. -/
def isWrapper (n : Node) : Bool :=
  match n.kind with
  | .parenthesized => n.named.length == 1
  | .asExpression | .satisfiesExpression | .nonNull => !n.named.isEmpty
  | _ => false

mutual

/-- The expression inside all wrappers. -/
def unwrap : Node → Node
  | ⟨kind, role, start, stop, text, children⟩ =>
    let self : Node := ⟨kind, role, start, stop, text, children⟩
    if self.isWrapper then (unwrapFirst children).getD self else self

/-- The expression inside all wrappers of the first node that is no token. -/
def unwrapFirst : List Node → Option Node
  | [] => none
  | n :: ns => if n.kind == .token then unwrapFirst ns else some (unwrap n)

end

/-- Whether a node is a name. -/
def isIdentifier (n : Node) : Bool :=
  n.kind == .identifier

/-- Whether a template has substitutions. -/
def hasSubstitutions (n : Node) : Bool :=
  n.children.any fun c => c.kind == .templateSubstitution

end Node

/-- The text that a string denotes; a body with unknown escapes stands for itself. -/
def stringValue (raw : String) : String :=
  match raw.toList with
  | q :: rest =>
    if (q == '\'' || q == '"') && !rest.isEmpty && rest.getLast? == some q then
      let body := rest.dropLast
      if !body.contains '\\' then String.ofList body
      else
        let body :=
          if q == '\'' then
            Text.replaceAll ['"'] ['\\', '"'] (Text.replaceAll ['\\', '\''] ['\''] body)
          else body
        match Text.unquote? ('"' :: body ++ ['"']) with
        | some value => String.ofList value
        | none => String.ofList body
    else raw
  | [] => raw

/-- The number that digits denote in a base of at most sixteen. -/
def natOfDigits? (base : Nat) (cs : List Char) : Option Nat :=
  if cs.isEmpty then none
  else
    cs.foldl (fun acc c => do
      let n ← acc
      let d ← Text.hexValue? c
      if d < base then some (n * base + d) else none) (some 0)

/-- The value of a numeral; big integers have none. -/
def numberValue? (text : String) : Option Value :=
  let cleaned := text.toList.filter (· != '_')
  let based? : Option Nat :=
    match cleaned with
    | '0' :: x :: _ =>
      if x == 'x' || x == 'X' then some 16
      else if x == 'o' || x == 'O' then some 8
      else if x == 'b' || x == 'B' then some 2
      else none
    | _ => none
  match based? with
  | some base => (natOfDigits? base (cleaned.drop 2)).map fun n => .int n
  | none =>
    (Double.ofNumeral? cleaned).map fun x =>
      match x.toInt? with
      | some n =>
        if cleaned.any fun c => c == '.' || c == 'e' || c == 'E' then .float x else .int n
      | none => .float x

namespace Node

/-- The value with the opposite sign, for numbers. -/
def negated? : Value → Option Value
  | .int n => some (.int (-n))
  | .float x => some (.float x.neg)
  | _ => none

/-- The value of a literal that is neither wrapped nor signed. -/
def plainLiteral? (n : Node) : Option Value :=
  match n.kind with
  | .string => some (.text (stringValue n.text))
  | .number => numberValue? n.text
  | .trueLiteral => some (.bool true)
  | .falseLiteral => some (.bool false)
  | .nullLiteral | .undefinedLiteral => some .null
  | .templateString => if n.hasSubstitutions then none else some (.text (Text.inner n.text))
  | _ => none

mutual

/-- The value of an expression that is a literal, maybe after minus signs. -/
def literal? : Node → Option Value
  | ⟨kind, role, start, stop, text, children⟩ =>
    let self : Node := ⟨kind, role, start, stop, text, children⟩
    if self.isWrapper then literalFirst? children
    else if kind == .unary then
      if (self.child? .operator).any fun op => op.text == "-" then
        (literalArgument? children).bind negated?
      else none
    else self.plainLiteral?

/-- The value of the first node that is no token. -/
def literalFirst? : List Node → Option Value
  | [] => none
  | n :: ns => if n.kind == .token then literalFirst? ns else literal? n

/-- The value of the operand. -/
def literalArgument? : List Node → Option Value
  | [] => none
  | n :: ns => if n.role == some .argument then literal? n else literalArgument? ns

end

mutual

/-- The names along a chain of accesses; an index must be a string. -/
def path? : Node → Option (List String)
  | ⟨kind, role, start, stop, text, children⟩ =>
    let self : Node := ⟨kind, role, start, stop, text, children⟩
    if self.isWrapper then pathFirst? children
    else
      match kind with
      | .identifier | .this => some [text]
      | .member => do
        let before ← pathObject? children
        let property ← self.child? .property
        return before ++ [property.text]
      | .subscript => do
        let before ← pathObject? children
        let index ← self.child? .index
        if index.unwrap.kind == .string then return before ++ [stringValue index.unwrap.text]
        else none
      | _ => none

/-- The path of the first node that is no token. -/
def pathFirst? : List Node → Option (List String)
  | [] => none
  | n :: ns => if n.kind == .token then pathFirst? ns else path? n

/-- The path of the object of an access. -/
def pathObject? : List Node → Option (List String)
  | [] => none
  | n :: ns => if n.role == some .object then path? n else pathObject? ns

end

end Node

/-- A function with at most one parameter. -/
structure Arrow where
  /-- The name of the parameter. -/
  param : Option String := none
  /-- The names that the parameter is taken apart into. -/
  destructured : List String := []
  /-- The result, unless the function has statements. -/
  body : Option Node := none

namespace Node

/-- The names that an object pattern binds at its first level. -/
def boundNames (pattern : Node) : List String :=
  pattern.named.filterMap fun c =>
    match c.kind with
    | .shorthandPattern => some c.text
    | .objectAssignmentPattern => (c.child? .left).map Node.text
    | .pairPattern =>
      ((c.child? .value).filter Node.isIdentifier).map Node.text
    | _ => none

/-- The parameter of a function, if it has at most one and it is a name or an object pattern. -/
def parameter? (n : Node) : Option (Option String × List String) :=
  match n.child? .parameter with
  | some single => some (some single.text, [])
  | none =>
    match ((n.child? .parameters).map operands).getD [] with
    | [] => some (none, [])
    | [item] =>
      let pattern :=
        if item.kind == .requiredParameter || item.kind == .optionalParameter then
          (item.child? .pattern).getD item
        else item
      match pattern.kind with
      | .identifier => some (some pattern.text, [])
      | .objectPattern => some (none, pattern.boundNames)
      | _ => none
    | _ => none

/-- The parts of a function with at most one parameter. -/
def arrow? (n : Node) : Option Arrow :=
  let n := n.unwrap
  if n.kind == .arrowFunction || n.kind == .functionExpression then do
    let (param, destructured) ← n.parameter?
    let body ← n.child? .body
    return { param, destructured,
             body := if body.kind == .statementBlock then none else some body.unwrap }
  else none

/-- One entry of an object literal; `some none` for a comment. -/
def entry? (n : Node) : Option (Option (String × Node)) :=
  match n.kind with
  | .pair => do
    let key ← n.child? .key
    let value ← n.child? .value
    if key.kind == .computedName then none
    else some (some (if key.kind == .string then stringValue key.text else key.text, value))
  | .shorthandIdentifier => some (some (n.text, n))
  | .comment => some none
  | _ => none

/-- The entries of an object literal without spreads, methods and computed names. -/
def entries? (n : Node) : Option (List (String × Node)) :=
  let n := n.unwrap
  if n.kind == .object then (n.named.mapM entry?).map (·.filterMap id) else none

/-- The function and the arguments of a call with an argument list. -/
def call? (n : Node) : Option (Node × List Node) :=
  let n := n.unwrap
  if n.kind == .call then do
    let callee ← n.child? .function
    let arguments ← n.child? .arguments
    if arguments.kind == .arguments then some (callee, arguments.operands) else none
  else none

/-- The tag and the template of a tagged template. -/
def taggedTemplate? (n : Node) : Option (Node × Node) :=
  let n := n.unwrap
  if n.kind == .call then do
    let tag ← n.child? .function
    let template ← n.child? .arguments
    if template.kind == .templateString then some (tag, template) else none
  else none

end Node

end Restyle.Tsx
