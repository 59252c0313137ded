import Restyle.Tsx.Grammar.Tie
import Restyle.Tsx.Pattern

/-!
# Rules of the grammar

The names of the rules and the small patterns that they share.
-/

namespace Restyle.Tsx

/-- The rules of the grammar. -/
inductive Rule where
  | statement
  | block
  | declaration
  | declarators
  | classBody
  | classForm
  | functionDeclaration
  | sequence
  | operand (tie : Tie)
  | primary
  | arrow
  | function
  | template
  | object
  | property
  | propertyName
  | callSignature
  | parameters
  | arguments
  | binding
  | objectBinding
  | arrayBinding
  | parenthesized
  | type
  | unionType
  | typeOperand
  | typePrimary
  | typeMark
  | resultType
  | objectType
  | typeArguments
  | typeParameters
  | element
  | elementName
  | tagAttribute
  | container
  deriving DecidableEq, Repr

/-- Patterns of this grammar. -/
abbrev Form := Pattern Rule

namespace Grammar

/-- A sign that leaves no node. -/
def sign (text : String) : Form := .sign text [] false

/-- A word that leaves no node. -/
def word (text : String) : Form := .word text false

def comma : Form := sign ","

def openBrace : Form := sign "\x7b"

def closeBrace : Form := sign "\x7d"

/-- The sign of an assignment or of an initial value. -/
def equals : Form := .sign "=" ["=", ">"] false

/-- The sign of an optional access. -/
def optionalDot : Form := sign "?."

/-- An expression without commas. -/
def expression : Form := .rule (.operand .free)

/-- A name with accesses and calls. -/
def accessPath : Form := .rule (.operand .access)

/-- One or more, divided by commas, with an optional comma at the end. -/
def commaList (p : Form) : Form :=
  .seq [p, .many (.seq [comma, p]), .maybe comma]

/-- Any number, divided by commas; places between commas may be empty. -/
def sparseList (p : Form) : Form :=
  .seq [.maybe p, .many (.seq [comma, .maybe p])]

/-- Words that are no names where an expression is expected. -/
def expressionWords : List String :=
  ["function", "class", "new", "this", "super", "true", "false", "null", "undefined", "typeof",
    "void", "delete", "import", "await", "yield"]

/-- Words that start a statement of their own. -/
def statementWords : List String :=
  ["if", "for", "while", "do", "switch", "try", "return", "throw", "break", "continue", "var",
    "const", "function", "class", "import", "debugger", "with", "else", "case", "default", "finally",
    "catch"]

/-- Words that are no names where a statement or an expression is expected. -/
def openingWords : List String :=
  ["if", "for", "while", "do", "switch", "try", "return", "throw", "break", "continue", "var",
    "const", "debugger", "with", "interface", "enum", "abstract"] ++ expressionWords.erase "new"

/-- Operators that are words. -/
def operatorWords : List String := ["in", "instanceof", "as", "satisfies"]

/-- A name of a value. -/
def identifier : Form := .name .identifier expressionWords

/-- A name that is given to a value. -/
def newName : Form := .name .identifier (expressionWords.erase "new")

/-- A name of any word. -/
def anyName (kind : Kind) : Form := .name kind []

/-- A name with a colon after it, in front of a property or a statement. -/
def labelInBraces : Form := .seq [openBrace, .name .token openingWords, sign ":"]

/-- An opening brace with which no object may start where a block may start, too. -/
def blockBrace : Form :=
  .seq [
    openBrace,
    .alt (.seq [anyName .token, comma] :: openingWords.map word)]

/-- A literal word that is a node of its own. -/
def literal (kind : Kind) (text : String) : Form := .node kind (word text)

/-- An initial value. -/
def initialValue : Form := .seq [equals, .role .value expression]

/-- An initial value at the end of a statement. -/
def lastValue : Form := .seq [equals, .role .value (.last true expression)]

/-- The marks before the name of a member, as long as more of the member follows. -/
def modifiers : Form :=
  .seq [
    .many (.seq [
      .alt (["public", "private", "protected", "static", "override", "readonly", "abstract",
        "declare", "async", "get", "set", "accessor"].map word),
      .ahead (.alt [.rule .propertyName, sign "*"])]),
    .maybe (sign "*")]

/-- A decorator. -/
def decorator : Form := .node .construct (.seq [sign "@", accessPath])

end Grammar

end Restyle.Tsx
