import Restyle.Text.Search

/-!
# Trees of a module

A module is read into a tree of nodes.  A node knows its kind, the part it plays in its parent, its
range in bytes and its text.  Keywords and operators that carry meaning are kept as token nodes;
comments are nodes like any other and stand where they were found.
-/

namespace Restyle.Tsx

/-- The kinds of nodes that later stages tell apart; `construct` stands for all others. -/
inductive Kind where
  | token
  | comment
  | program
  | importStatement
  | importClause
  | namespaceImport
  | namedImports
  | importSpecifier
  | exportStatement
  | lexicalDeclaration
  | variableDeclaration
  | variableDeclarator
  | typeAlias
  | interfaceDeclaration
  | expressionStatement
  | statementBlock
  | identifier
  | propertyIdentifier
  | typeIdentifier
  | shorthandIdentifier
  | shorthandPattern
  | this
  | super
  | string
  | number
  | regex
  | templateString
  | templateSubstitution
  | trueLiteral
  | falseLiteral
  | nullLiteral
  | undefinedLiteral
  | array
  | object
  | pair
  | computedName
  | spread
  | functionExpression
  | arrowFunction
  | newExpression
  | call
  | member
  | subscript
  | nonNull
  | unary
  | binary
  | ternary
  | assignment
  | operation
  | sequence
  | parenthesized
  | asExpression
  | satisfiesExpression
  | arguments
  | formalParameters
  | requiredParameter
  | optionalParameter
  | arrayPattern
  | restPattern
  | assignmentPattern
  | objectPattern
  | objectAssignmentPattern
  | pairPattern
  | jsxElement
  | jsxSelfClosing
  | jsxOpening
  | jsxClosing
  | jsxAttribute
  | jsxExpression
  | jsxText
  | typeArguments
  | construct
  deriving DecidableEq, Repr

/-- The part a node plays in its parent. -/
inductive Role where
  | name
  | alias
  | source
  | declaration
  | value
  | object
  | property
  | index
  | function
  | arguments
  | typeArguments
  | left
  | right
  | operator
  | argument
  | condition
  | consequence
  | alternative
  | parameter
  | parameters
  | body
  | pattern
  | key
  | openTag
  | closeTag
  deriving DecidableEq, Repr

/-- A node of the tree of a module; `start` and `stop` are byte offsets. -/
structure Node where
  kind : Kind
  role : Option Role := none
  start : Nat
  stop : Nat
  text : String
  children : List Node := []
  deriving Repr

namespace Node

/-- The children that are not tokens. -/
def named (n : Node) : List Node :=
  n.children.filter fun c => c.kind != .token

/-- The first child that plays a part. -/
def child? (n : Node) (role : Role) : Option Node :=
  n.children.find? fun c => c.role == some role

/-- Whether a token with the given text is among the children. -/
def hasToken (n : Node) (text : String) : Bool :=
  n.children.any fun c => c.kind == .token && c.text == text

/-- The named children that are no comments. -/
def operands (n : Node) : List Node :=
  n.named.filter fun c => c.kind != .comment

mutual

/-- A node and all nodes below it, outer nodes first and in source order. -/
def walk : Node → List Node
  | ⟨kind, role, start, stop, text, children⟩ =>
    ⟨kind, role, start, stop, text, children⟩ :: walkAll children

/-- The nodes of a list with all nodes below them. -/
def walkAll : List Node → List Node
  | [] => []
  | n :: ns => n.walk ++ walkAll ns

end

mutual

/-- Every node below a node together with its parent, in source order. -/
def walkWithParent (parent : Option Node) : Node → List (Node × Option Node)
  | ⟨kind, role, start, stop, text, children⟩ =>
    let self : Node := ⟨kind, role, start, stop, text, children⟩
    (self, parent) :: walkAllWithParent self children

/-- The nodes of a list, each with its parent, and all nodes below them. -/
def walkAllWithParent (parent : Node) : List Node → List (Node × Option Node)
  | [] => []
  | n :: ns => walkWithParent (some parent) n ++ walkAllWithParent parent ns

end

/-- Whether two nodes stand at the same place and are of the same kind. -/
def same (a b : Node) : Bool :=
  a.kind == b.kind && a.start == b.start && a.stop == b.stop

end Node

end Restyle.Tsx
