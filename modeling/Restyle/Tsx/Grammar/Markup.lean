import Restyle.Tsx.Grammar.Basic

/-!
# Forms of elements
-/

namespace Restyle.Tsx.Grammar

/-- A name with a name space before it. -/
def spacedName : Form :=
  .node .construct (.seq [
    .lexeme .identifier .tagName, .joined ":", .joinedLexeme .identifier .tagName])

/-- The name of an element. -/
def elementName : Form :=
  .alt [
    spacedName,
    .chain (.lexeme .identifier .tagName) [
      { kind := .member
        role := some .object
        rest := .seq [sign ".", .role .property (anyName .propertyIdentifier)] }]]

/-- An attribute of an element, or an expression that is spread into its attributes. -/
def tagAttribute : Form :=
  .alt [
    .node .jsxAttribute (.seq [
      .alt [spacedName, .lexeme .propertyIdentifier .tagName],
      .maybe (.seq [
        sign "=",
        .alt [.lexeme .string .attributeString, .rule .container, .rule .element]])]),
    .rule .container ]

/-- An expression between braces. -/
def container : Form :=
  .node .jsxExpression (.seq [
    openBrace,
    .maybe (.alt [
      .node .spread (.seq [sign "...", expression]),
      .rule .sequence]),
    closeBrace])

/-- What stands between two tags. -/
def elementContent : Form :=
  .many (.alt [
    .joinedLexeme .jsxText .tagText,
    .joinedLexeme .construct .entity,
    .rule .element,
    .rule .container ])

/-- The tag that ends an element; its name need not be that of the first tag. -/
def closingTag : Form :=
  .role .closeTag (.node .jsxClosing (.seq [
    sign "</", .maybe (.role .name (.rule .elementName)), sign ">"]))

/-- An element: a tag that closes itself, or two tags with content between them. -/
def element : Form :=
  let inTag : List Kind :=
    [.identifier, .member, .construct, .typeArguments, .jsxAttribute, .jsxExpression]
  .closed (.alt [
    .ofKind [.jsxElement, .jsxSelfClosing] (.chain
      (.seq [
        sign "<", .role .name (.rule .elementName),
        .maybe (.role .typeArguments (.rule .typeArguments)),
        .many (.rule .tagAttribute)])
      [ { kind := .jsxSelfClosing, accepts := inTag, rest := sign "/>" },
        { kind := .jsxOpening, accepts := inTag, rest := sign ">" },
        { kind := .jsxElement
          accepts := [.jsxOpening]
          role := some .openTag
          rest := .seq [elementContent, closingTag] }]),
    .node .jsxElement (.seq [
      .role .openTag (.node .jsxOpening (.seq [sign "<", sign ">"])), elementContent, closingTag])])

end Restyle.Tsx.Grammar
