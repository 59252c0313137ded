import Restyle.Tsx.Grammar.Expression

/-!
# Forms of types
-/

namespace Restyle.Tsx.Grammar

/-- The type of a name. -/
def typeMark : Form := .seq [sign ":", .rule .type]

/-- A test of a parameter that a result stands for. -/
def predicate : Form :=
  .seq [.alt [literal .this "this", anyName .identifier], .goesOn, word "is", .rule .type]

/-- A result that is a type, or what the function finds out about a parameter. -/
def resultForm : Form :=
  .alt [
    .seq [word "asserts", .goesOn, .alt [
      predicate, literal .this "this", anyName .identifier]],
    predicate,
    .rule .type ]

/-- The type of a result. -/
def resultType : Form := .seq [sign ":", resultForm]

/-- The type of functions or of constructors. -/
def functionType : Form :=
  .node .construct (.seq [
    .maybe (.seq [.maybe (word "abstract"), word "new"]),
    .maybe (.rule .typeParameters), .rule .parameters, sign "=>", resultForm])

/-- A type, which may hang on a test. -/
def type : Form :=
  .chain (.rule .unionType) [
    { kind := .construct
      rest := .seq [
        word "extends", .rule .unionType, sign "?", .closed (.rule .type), sign ":",
        .rule .type] }]

/-- Types joined by signs; further signs may stand before each of them. -/
def unionType : Form :=
  let mark : Form := .alt [.sign "|" ["|"] false, .sign "&" ["&"] false]
  let marked : Form := .seq [.many mark, .rule .typeOperand]
  .seq [marked, .many (.seq [mark, marked])]

/-- Types with words before them and brackets after them. -/
def typeOperand : Form :=
  .alt [
    functionType,
    .node .construct (.seq [
      .alt (sign "?" :: ["keyof", "unique", "readonly"].map word), .rule .typeOperand]),
    .node .construct (.seq [
      word "infer", anyName .typeIdentifier,
      .maybe (.seq [.goesOn, word "extends", .rule .type])]),
    .chain (.rule .typePrimary) [
      { kind := .construct
        rest := .closed (.seq [sign "[", .maybe (.rule .type), sign "]"]) }]]

/-- A text with types in it. -/
def typeTemplate : Form :=
  .node .construct (.seq [
    sign "\x60", .joinedLexeme .token .templateChars,
    .many (.seq [
      .closed (.seq [.joined "$\x7b", .rule .type, closeBrace]),
      .joinedLexeme .token .templateChars]),
    .joined "\x60"])

/-- Words that are no names where a type is expected. -/
def typeWords : List String :=
  ["typeof", "keyof", "infer", "readonly", "unique", "new", "abstract", "import"]

/-- Types that a word stands for, so that it is no name. -/
def wordTypes : List String :=
  ["any", "number", "boolean", "string", "symbol", "void", "unknown", "never", "object", "this",
    "true", "false", "null", "undefined", "const"]

/-- A declared type: a name, maybe with the names of the modules around it. -/
def declaredType : Form :=
  .alt [
    .node .construct (.seq [
      .name .identifier (typeWords ++ wordTypes), sign ".",
      .many (.seq [anyName .propertyIdentifier, sign "."]), anyName .typeIdentifier]),
    .name .typeIdentifier (typeWords ++ wordTypes) ]

/-- The type of a value. -/
def typeQuery : Form :=
  .node .construct (.seq [
    word "typeof",
    .chain (.alt [
      .node .construct (.seq [word "import", .rule .arguments]),
      literal .this "this", anyName .identifier]) [
      memberGrowth, callGrowth [] callArguments],
    .maybe (.rule .typeArguments)])

/-- Types that need no signs around them. -/
def typePrimary : Form :=
  .alt [
    .node .construct (.closed (.seq [sign "(", .rule .type, sign ")"])),
    .node .construct (.closed (.seq [
      sign "[",
      .maybe (commaList (.seq [
        .maybe (sign "..."),
        .alt [
          .seq [anyName .identifier, .maybe (sign "?"), .rule .typeMark],
          .seq [.rule .type, .maybe (sign "?")]]])),
      sign "]"])),
    .rule .objectType,
    .lexeme .string .string,
    .seq [.maybe (.alt [sign "-", sign "+"]), .lexeme .number .number],
    typeTemplate,
    typeQuery,
    .node .construct (.seq [
      word "import", .rule .arguments, .many (.seq [sign ".", anyName .typeIdentifier]),
      .maybe (.rule .typeArguments)]),
    sign "*",
    .node .construct (.seq [declaredType, .rule .typeArguments]),
    .seq [declaredType, .lacks (.sign "<" ["<", "="] false)],
    .alt (wordTypes.map (literal .typeIdentifier)) ]

/-- The type of what an index reaches, maybe with a change to whether it must be there. -/
def indexedType : Form :=
  .alt [
    .rule .typeMark,
    .seq [.alt [sign "?:", sign "-?:", sign "+?:"], .rule .type]]

/-- The end of a member of an object type or a class. -/
def memberEnd : Form := .alt [comma, .semicolon]

/-- A member of an object type. -/
def typeMember : Form :=
  let signed (text : String) : Form := .seq [.maybe (.alt [sign "+", sign "-"]), word text]
  .alt [
    .seq [
      .maybe (.seq [signed "readonly", .ahead (sign "[")]),
      sign "[",
      .alt [
        .seq [anyName .identifier, .rule .typeMark],
        .seq [
          anyName .typeIdentifier, word "in", .rule .type,
          .maybe (.seq [word "as", .rule .type])]],
      sign "]", .last false indexedType],
    .seq [
      .maybe (.seq [.maybe (word "abstract"), word "new"]), .last false (.rule .callSignature)],
    .seq [
      modifiers, .lacks (.seq [sign "[", anyName .token, word "in"]), .rule .propertyName,
      .maybe (sign "?"),
      .last false (.alt [.rule .callSignature, .maybe (.rule .typeMark)])]]

/-- The type of an object. -/
def objectType : Form :=
  .node .construct (.closed (.seq [
    .alt [sign "\x7b|", openBrace], .maybe (.alt [comma, sign ";"]),
    .many (.seq [.node .construct typeMember, .alt [memberEnd, .ahead (sign "|\x7d")]]),
    .alt [closeBrace, sign "|\x7d"]]))

/-- The arguments of a generic type or call. -/
def typeArguments : Form :=
  .node .typeArguments (.closed (.seq [sign "<", commaList (.rule .type), sign ">"]))

/-- The parameters of a generic type or function. -/
def typeParameters : Form :=
  .node .construct (.closed (.seq [
    sign "<",
    commaList (.seq [
      .many (.seq [
        .alt (["const", "in", "out"].map word), .ahead (anyName .typeIdentifier)]),
      anyName .typeIdentifier,
      .maybe (.seq [word "extends", .rule .type]),
      .maybe (.seq [equals, .rule .type])]),
    sign ">"]))

end Restyle.Tsx.Grammar
