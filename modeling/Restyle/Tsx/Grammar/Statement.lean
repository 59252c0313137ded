import Restyle.Tsx.Grammar.TypeForm

/-!
# Forms of statements and declarations
-/

namespace Restyle.Tsx.Grammar

/-- A word that starts a statement, unless it is a whole statement by itself. -/
def statementWord (text : String) : Form := .seq [word text, .last true .goesOn]

/-! ## Imports and exports -/

/-- A module whose contents are used. -/
def source : Form := .role .source (.lexeme .string .string)

/-- A name or a text that names something that a module exports. -/
def exportedName (role : Role) : Form :=
  .role role (.alt [anyName .identifier, .lexeme .string .string])

/-- A name that is imported or exported, maybe under another name. -/
def specifier (kind : Kind) (otherName : Form) : Form :=
  let renamed : Form := .seq [exportedName .name, word "as", otherName]
  let typeOnly : Form := .word "type" true
  .node kind (.alt [
    renamed,
    .seq [typeOnly, renamed],
    .seq [typeOnly, exportedName .name],
    exportedName .name ])

/-- All that a module exports, under one name. -/
def namespaceImport : Form :=
  .node .namespaceImport (.seq [sign "*", word "as", anyName .identifier])

/-- Some of what a module exports. -/
def namedImports : Form :=
  .node .namedImports (.seq [
    openBrace,
    .maybe (commaList (specifier .importSpecifier (.role .alias (anyName .identifier)))),
    closeBrace])

/-- What a statement imports. -/
def importClause : Form :=
  .node .importClause (.alt [
    namespaceImport,
    namedImports,
    .seq [
      anyName .identifier,
      .maybe (.seq [comma, .alt [namespaceImport, namedImports]])]])

/-- Attributes of an imported module. -/
def importAttributes : Form :=
  .maybe (.seq [.alt [word "with", word "assert"], .rule .object])

/-- An import statement. -/
def importStatement : Form :=
  .node .importStatement (.seq [
    word "import",
    .alt [
      source,
      .seq [
        .alt [.word "type" true, .word "typeof" true], importClause, word "from", source],
      .seq [importClause, word "from", source],
      .seq [
        .maybe (word "type"),
        .node .construct (.seq [
          anyName .identifier, sign "=", word "require", sign "(", source, sign ")"])]],
    importAttributes,
    .semicolon])

/-- An export statement. -/
def exportStatement : Form :=
  let names : Form := .node .construct (.seq [
    openBrace, .maybe (commaList (specifier .construct (exportedName .alias))), closeBrace])
  let origin : Form := .seq [word "from", source, importAttributes]
  .node .exportStatement (.seq [
    .many decorator,
    statementWord "export",
    .alt [
      .seq [
        .maybe (word "type"), sign "*", .maybe (.seq [word "as", exportedName .alias]), origin,
        .semicolon],
      .seq [.maybe (word "type"), names, .maybe origin, .semicolon],
      .seq [word "default", .role .declaration (.rule .declaration)],
      .seq [word "default", .role .value (.last true expression), .semicolon],
      .role .declaration (.rule .declaration),
      .seq [sign "=", .last true expression, .semicolon],
      .seq [word "as", word "namespace", anyName .identifier, .semicolon]]])

/-! ## Declarations -/

/-- Declared variables. -/
def declarators : Form :=
  let declarator : Form := .node .variableDeclarator (.seq [
    .role .name (.alt [.rule .objectBinding, .rule .arrayBinding, anyName .identifier]),
    .maybe (sign "!"), .last false (.maybe (.rule .typeMark)), .maybe lastValue])
  .seq [declarator, .many (.seq [comma, declarator])]

/-- A declaration of variables; `letWord` is the word for those that may change. -/
def variableForm (letWord : Form) : Form :=
  .alt [
    .node .lexicalDeclaration (.seq [
      .alt [word "const", letWord], .rule .declarators, .semicolon]),
    .node .variableDeclaration (.seq [word "var", .rule .declarators, .semicolon]) ]

/-- A declared function. -/
def functionDeclaration : Form :=
  .node .construct (.seq [
    .maybe (statementWord "async"), word "function", .maybe (sign "*"),
    .role .name (anyName .identifier), .last false (.rule .callSignature),
    .alt [.role .body (.rule .block), .semicolon]])

/-- The part of a class after the word for it. -/
def classForm : Form :=
  .seq [
    .maybe (.role .name (.name .typeIdentifier ["extends", "implements"])),
    .maybe (.rule .typeParameters),
    .maybe (.seq [
      word "extends", accessPath, .maybe (.rule .typeArguments),
      .many (.seq [comma, accessPath, .maybe (.rule .typeArguments)])]),
    .maybe (.seq [word "implements", commaList (.rule .type)]),
    .rule .classBody ]

/-- The members of a class. -/
def classBody : Form :=
  let indexed : Form := .seq [
    modifiers, sign "[", anyName .identifier, .rule .typeMark, sign "]",
    .last false indexedType, memberEnd]
  let member : Form := .seq [
    modifiers, .rule .propertyName, .maybe (.alt [sign "?", .sign "!" ["="] false]),
    .alt [
      .seq [
        .last false (.rule .callSignature), .alt [.role .body (.rule .block), memberEnd]],
      .seq [.last false (.maybe (.rule .typeMark)), .maybe lastValue, memberEnd]]]
  .closed (.seq [
    openBrace,
    .many (.alt [
      sign ";",
      .seq [word "static", .rule .block],
      .node .construct (.seq [.many decorator, .alt [indexed, member]])]),
    closeBrace])

/-- A list of named values. -/
def enumDeclaration : Form :=
  .node .construct (.seq [
    .maybe (word "const"), word "enum", .role .name (anyName .identifier), openBrace,
    .maybe (commaList (.seq [.rule .propertyName, .maybe initialValue])), closeBrace])

/-- Declarations of all kinds. -/
def declaration : Form :=
  .alt [
    enumDeclaration,
    variableForm (statementWord "let"),
    .rule .functionDeclaration,
    .node .construct (.seq [
      .many decorator, .maybe (word "abstract"), word "class",
      .ahead (.name .typeIdentifier ["extends", "implements"]), .rule .classForm]),
    .node .typeAlias (.seq [
      statementWord "type", .role .name (anyName .typeIdentifier),
      .maybe (.rule .typeParameters), equals, .role .value (.last false (.rule .type)),
      .semicolon]),
    .node .interfaceDeclaration (.seq [
      word "interface", .role .name (anyName .typeIdentifier), .maybe (.rule .typeParameters),
      .maybe (.seq [word "extends", commaList (.rule .type)]), .role .body (.rule .objectType)]),
    .node .construct (.seq [
      .alt [statementWord "namespace", statementWord "module"],
      .alt [
        .lexeme .string .string,
        .seq [anyName .identifier, .many (.seq [sign ".", anyName .identifier])]],
      .alt [.rule .block, .semicolon]]),
    .node .construct (.seq [
      word "import", anyName .identifier, sign "=", .last false accessPath,
      .semicolon]),
    .node .construct (.seq [
      statementWord "declare",
      .alt [.rule .declaration, .seq [word "global", .rule .block]]]) ]

/-! ## Other statements -/

/-- Statements in braces. -/
def block : Form :=
  .node .statementBlock (.closed (.seq [openBrace, .many (.rule .statement), closeBrace]))

/-- The head of a loop. -/
def loopHead : Form :=
  .alt [
    .seq [
      .alt [
        .seq [.alt [word "const", word "let", word "var"], .rule .binding, .maybe initialValue],
        accessPath],
      .alt [word "in", word "of"], .rule .sequence],
    .seq [
      .alt [variableForm (word "let"), .seq [.rule .sequence, sign ";"], sign ";"],
      .maybe (.rule .sequence), sign ";", .maybe (.rule .sequence)]]

/-- Statements that a word starts. -/
def controlStatement : Form :=
  let condition : Form := .role .condition (.rule .parenthesized)
  let jump (text : String) : Form :=
    .seq [word text, .alt [.semicolon, .seq [anyName .construct, .semicolon]]]
  .alt [
    .seq [
      word "if", condition, .rule .statement, .maybe (.seq [word "else", .rule .statement])],
    .seq [
      word "for", .maybe (word "await"), sign "(", loopHead, sign ")", .rule .statement],
    .seq [word "while", condition, .rule .statement],
    .seq [
      word "do", .rule .statement, word "while", condition, .maybe (sign ";")],
    .seq [
      word "switch", condition, openBrace,
      .many (.node .construct (.seq [
        .alt [.seq [word "case", .rule .sequence], word "default"], sign ":",
        .many (.rule .statement)])),
      closeBrace],
    .seq [
      word "try", .rule .block,
      .maybe (.seq [
        word "catch",
        .maybe (.seq [sign "(", .rule .binding, .maybe (.rule .typeMark), sign ")"]),
        .rule .block]),
      .maybe (.seq [word "finally", .rule .block])],
    .seq [word "return", .alt [.semicolon, .seq [.last true (.rule .sequence), .semicolon]]],
    .seq [word "throw", .last true (.rule .sequence), .semicolon],
    jump "break",
    jump "continue",
    .seq [word "debugger", .semicolon],
    .seq [word "with", condition, .rule .statement] ]

/-- Statements of all kinds. -/
def statement : Form :=
  .alt [
    importStatement,
    exportStatement,
    .rule .declaration,
    .node .construct controlStatement,
    .rule .block,
    .node .construct (sign ";"),
    .lexeme .construct .marginComment,
    .node .construct (.seq [
      .name .construct (statementWords ++ openingWords), sign ":", .rule .statement]),
    .seq [
      .lacks blockBrace,
      .alt [
        .lacks (.alt (statementWords.map word)),
        .ahead (.seq [word "import", .alt [sign "(", sign "."]])],
      .node .expressionStatement (.seq [.last true (.rule .sequence), .semicolon])]]

end Restyle.Tsx.Grammar
