import Restyle.Tsx.Grammar.Basic

/-!
# Forms of expressions

An expression is an operand that grows by what follows it: accesses, calls, operators with further
operands, choices and assignments.  The tie on its left decides which of them it takes.
-/

namespace Restyle.Tsx.Grammar

/-! ## What follows an operand -/

/-- Kinds of expressions that need no operator. -/
def primaryKinds : List Kind :=
  [.identifier, .this, .super, .string, .number, .regex, .templateString, .trueLiteral,
    .falseLiteral, .nullLiteral, .undefinedLiteral, .array, .object, .functionExpression,
    .arrowFunction, .call, .member, .subscript, .nonNull, .parenthesized, .construct]

/-- Access to a member. -/
def memberGrowth : Growth Form :=
  { kind := .member
    role := some .object
    rest := .seq [
      .alt [.sign "." ["."] false, optionalDot],
      .role .property (.alt [
        anyName .propertyIdentifier, .lexeme .propertyIdentifier .privateName])] }

/-- Access by an index. -/
def subscriptGrowth : Growth Form :=
  { kind := .subscript
    role := some .object
    rest := .seq [
      .maybe optionalDot, .closed (.seq [sign "[", .role .index (.rule .sequence), sign "]"])] }

/-- An assertion that there is a value. -/
def nonNullGrowth : Growth Form :=
  { kind := .nonNull, rest := .sign "!" ["="] false }

/-- A call; what is called must be of one of the accepted kinds, if any are given. -/
def callGrowth (accepts : List Kind) (rest : Form) : Growth Form :=
  { kind := .call, accepts := accepts, role := some .function, rest := rest }

/-- The arguments of a call. -/
def callArguments : Form := .role .arguments (.rule .arguments)

/-- The type arguments of a call. -/
def callTypeArguments : Form := .role .typeArguments (.rule .typeArguments)

/-- A text with substitutions that is given to a function. -/
def templateGrowth : Growth Form :=
  callGrowth (.newExpression :: primaryKinds) (.role .arguments (.rule .template))

/-- A call that is left out where there is no function. -/
def optionalCallGrowth : Growth Form :=
  callGrowth primaryKinds (.seq [optionalDot, .maybe callTypeArguments, callArguments])

/-- Accesses and calls without type arguments. -/
def accessGrowths : List (Growth Form) :=
  [memberGrowth, subscriptGrowth, callGrowth [] callArguments, templateGrowth, optionalCallGrowth]

/-- The start of an operand, as it may stand after a comparison. -/
def operandStart : Form :=
  .alt [
    .name .token operatorWords, .lexeme .token .number, .lexeme .token .string, sign "\x60",
    openBrace, sign "@", sign "#", sign "~", sign "(", .rule .element,
    .seq [.sign "!" ["="] false, .rule (.operand .unary)]]

/-- Type arguments that are not two comparisons. -/
def typeArgumentsGrowth : Growth Form :=
  { kind := .operation
    rest := .seq [callTypeArguments, .alt [.lacks .goesOn, .lacks operandStart]] }

/-- An assertion about the type of a value. -/
def castGrowth (kind : Kind) (text : String) : Growth Form :=
  { kind := kind, rest := .seq [word text, .alt [word "const", .rule .type]] }

/-- Kinds of expressions that may be changed by an assignment with an operator. -/
def changeable : List Kind := [.identifier, .member, .subscript, .nonNull, .parenthesized]

/-- Assignments to what has been read. -/
def assignmentGrowths : List (Growth Form) :=
  [ { kind := .assignment
      accepts := .undefinedLiteral :: changeable
      role := some .left
      rest := .seq [equals, .role .right expression] },
    { kind := .operation
      accepts := changeable
      role := some .left
      rest := .seq [
        .alt (["+=", "-=", "*=", "/=", "%=", "^=", "&=", "|=", ">>=", ">>>=", "<<=", "**=", "&&=",
          "||=", "??="].map sign),
        .role .right expression] } ]

/-- Binary operators with their levels. -/
def operators : List (Nat × Form) :=
  let plain (text : String) (except : List String) : Form := .sign text except true
  [ (powerLevel, plain "**" ["="]),
    (13, plain "*" ["*", "="]), (13, plain "/" ["=", "/", "*"]), (13, plain "%" ["="]),
    (12, plain "+" ["+", "="]), (12, plain "-" ["-", "="]),
    (11, plain ">>>" ["="]), (11, plain ">>" [">", "="]), (11, plain "<<" ["="]),
    (relationLevel, plain "<=" []), (relationLevel, plain ">=" []),
    (relationLevel, plain "<" ["<", "="]), (relationLevel, plain ">" [">", "="]),
    (relationLevel, .word "in" true), (relationLevel, .word "instanceof" true),
    (9, plain "===" []), (9, plain "!==" []), (9, plain "==" ["="]), (9, plain "!=" ["="]),
    (8, plain "&" ["&", "="]), (7, plain "^" ["="]), (6, plain "|" ["|", "="]),
    (5, plain "&&" ["="]), (4, plain "||" ["="]), (3, plain "??" ["="]) ]

/-- An operator and its right operand. -/
def binaryGrowth (operator : Nat × Form) : Growth Form :=
  { kind := .binary
    role := some .left
    rest := .seq [
      .role .operator operator.2, .role .right (.rule (.operand (.binary operator.1)))] }

/-- The mark of a choice between two values. -/
def choiceMark : Form :=
  .seq [
    .sign "?" ["?", "."] false,
    .lacks (.alt [
      sign ":", sign ")", comma,
      .sign "." ["0", "1", "2", "3", "4", "5", "6", "7", "8", "9"] false])]

/-- A choice between two values.  Arrows between its marks may have no result types. -/
def choiceGrowths : List (Growth Form) :=
  let choice (consequence : Form) : Growth Form :=
    { kind := .ternary
      role := some .condition
      rest := .seq [
        choiceMark, .role .consequence (.closed consequence), sign ":",
        .role .alternative expression] }
  [choice expression, choice (.plainArrows expression)]

/-- All that an operand may grow by, given the tie on its left. -/
def growths (tie : Tie) : List (Growth Form) :=
  let taken (suffix : Suffix) (growths : List (Growth Form)) : List (Growth Form) :=
    if tie.takes suffix then growths else []
  accessGrowths ++
    taken .typedCall [callGrowth [] (.seq [callTypeArguments, callArguments])] ++
    taken .typeArguments [typeArgumentsGrowth] ++
    taken .update [{ kind := .operation, rest := .alt [sign "++", sign "--"] }] ++
    taken .assertion [
      nonNullGrowth, castGrowth .asExpression "as", castGrowth .satisfiesExpression "satisfies"] ++
    taken .assignment assignmentGrowths ++
    (operators.filter fun operator => tie.takes (.binary operator.1)).map binaryGrowth ++
    taken .choice choiceGrowths

/-! ## Operands -/

/-- Operators before their operand. -/
def leadingForms : List Form :=
  [ .node .unary (.seq [
      .role .operator (.alt [
        .sign "!" [] true, .sign "~" [] true, .sign "-" ["-"] true, .sign "+" ["+"] true,
        .word "typeof" true, .word "void" true, .word "delete" true]),
      .role .argument (.rule (.operand .unary))]),
    .node .operation (.seq [
      .alt [sign "++", sign "--"], .rule (.operand .update)]),
    .node .operation (.seq [word "await", .rule (.operand .await)]),
    .node .operation (.seq [word "yield", .alt [
      .seq [sign "*", expression],
      .maybe (.seq [.goesOn, .lacks (.alt (operatorWords.map word)), expression])]]) ]

/-- An assignment to the parts of a value. -/
def partsAssignment : Form :=
  .node .assignment (.seq [
    .role .left (.alt [.rule .objectBinding, .rule .arrayBinding]), equals,
    .role .right expression])

/-- An operand with all that it takes of what follows. -/
def operand (tie : Tie) : Form :=
  let start : List Form :=
    if tie == .access then [.rule .primary]
    else
      leadingForms ++
        (if tie.takes (.binary relationLevel) then
          [.seq [.lexeme .propertyIdentifier .privateName, .ahead (word "in")]]
        else []) ++
        [partsAssignment, .rule .primary, .rule .element]
  .chain (.alt start) (growths tie)

/-- One or more expressions, divided by commas; `finish` must fit after two or more. -/
def sequenceBefore (finish : List Form) : Form :=
  .chain expression [
    { kind := .sequence
      rest := .seq ([comma, expression, .many (.seq [comma, expression])] ++ finish) }]

/-- One or more expressions, divided by commas. -/
def sequence : Form := sequenceBefore []

/-- A new object; without a class to make it of, the word is a name. -/
def newForms : List Form :=
  [ .node .construct (.seq [word "new", sign ".", word "target"]),
    .node .newExpression (.seq [
      word "new", .lacks (.alt (operatorWords.map word)),
      .chain (.ofKind primaryKinds (.rule .primary)) [
        memberGrowth, subscriptGrowth, templateGrowth, optionalCallGrowth],
      .maybe callTypeArguments, .maybe callArguments]),
    .seq [literal .identifier "new", .lacks (.alt [sign ".", sign "<"])] ]

/-- An item of a list of values: a value, or one whose items are spread. -/
def listItem : Form :=
  .alt [.node .spread (.seq [sign "...", expression]), expression]

/-- Expressions that need no operator. -/
def primary : Form :=
  .alt ([
    .rule .arrow,
    .rule .function,
    .node .construct (.seq [.many decorator, word "class", .rule .classForm])] ++
    newForms ++ [
    .node .construct (.seq [word "import", sign ".", word "meta"]),
    .seq [literal .construct "import", .ahead (.alt [sign "(", optionalDot])],
    literal .this "this",
    literal .super "super",
    literal .trueLiteral "true",
    literal .falseLiteral "false",
    literal .nullLiteral "null",
    literal .undefinedLiteral "undefined",
    .lexeme .number .number,
    .lexeme .string .string,
    .lexeme .regex .regex,
    .rule .template,
    .rule .object,
    .node .array (.closed (.seq [sign "[", sparseList listItem, sign "]"])),
    .rule .parenthesized,
    identifier ])

/-- An expression in parentheses; a single one may have a type. -/
def parenthesized : Form :=
  .node .parenthesized (.closed (.seq [
    sign "(", sequenceBefore [.lacks (sign ":")], .maybe (.node .construct (.rule .typeMark)),
    sign ")"]))

/--
The body of a function that is written with an arrow.  Braces hold an object if they start with a
labelled name and can be read so, and otherwise statements if they can be read so.
-/
def arrowBody : Form :=
  .alt [
    .seq [.ahead labelInBraces, expression],
    .rule .block,
    .seq [.lacks blockBrace, expression]]

/-- A function that is written with an arrow. -/
def arrow : Form :=
  let mark : Form := sign "=>"
  let head : Form :=
    .alt [
      .seq [.role .parameter newName, .ahead mark],
      .seq [
        .maybe (.rule .typeParameters), .role .parameters (.rule .parameters),
        .alt [
          .ahead mark,
          .seq [.arrowTypes, .rule .resultType, .ahead mark],
          .seq [.arrowTypes, sign ":", .rule .typePrimary]]]]
  let rest : Form := .seq [head, mark, .role .body arrowBody]
  .alt [
    .node .arrowFunction (.seq [word "async", .goesOn, rest]),
    .node .arrowFunction rest ]

/-- A function that is written with the word for it. -/
def function : Form :=
  let start : Form := .seq [.maybe (.seq [word "async", .goesOn]), word "function"]
  let rest : Form := .seq [
    .maybe (.role .name (anyName .identifier)), .rule .callSignature, .role .body (.rule .block)]
  .alt [
    .node .functionExpression (.seq [start, rest]),
    .node .construct (.seq [start, sign "*", rest]) ]

/-- A text with substitutions. -/
def template : Form :=
  .node .templateString (.seq [
    sign "\x60", .joinedLexeme .token .templateChars,
    .many (.seq [
      .node .templateSubstitution
        (.closed (.seq [.joined "$\x7b", .rule .sequence, closeBrace])),
      .joinedLexeme .token .templateChars]),
    .joined "\x60"])

/-- The name of a property. -/
def propertyName : Form :=
  .alt [
    anyName .propertyIdentifier,
    .lexeme .propertyIdentifier .privateName,
    .lexeme .string .string,
    .lexeme .number .number,
    .node .computedName (.closed (.seq [sign "[", expression, sign "]"]))]

/-- A property of an object. -/
def property : Form :=
  let more : Form := .ahead (.alt [.rule .propertyName, sign "*"])
  let mark (words : List String) : Form := .maybe (.seq [.alt (words.map word), more])
  .alt [
    .node .pair (.seq [
      .role .key (.rule .propertyName), sign ":", .role .value expression]),
    .node .spread (.seq [sign "...", expression]),
    .node .construct (.seq [
      mark ["public", "private", "protected"], mark ["static"], mark ["override"],
      mark ["readonly"], mark ["async"],
      .maybe (.alt [
        .seq [.alt [word "get", word "set"], .ahead (.rule .propertyName)], sign "*"]),
      .role .name (.rule .propertyName), .maybe (sign "?"), .rule .callSignature,
      .role .body (.rule .block)]),
    anyName .shorthandIdentifier ]

/-- An object. -/
def object : Form :=
  .node .object (.closed (.seq [openBrace, sparseList (.rule .property), closeBrace]))

/-- The arguments of a call. -/
def arguments : Form :=
  .node .arguments (.closed (.seq [sign "(", sparseList listItem, sign ")"]))

/-- Type parameters, parameters and the type of the result. -/
def callSignature : Form :=
  .seq [
    .maybe (.rule .typeParameters), .role .parameters (.rule .parameters),
    .maybe (.rule .resultType)]

/-! ## Parameters and bindings -/

/-- Kinds of what a single name, or a place that is reached from one, is bound as. -/
def placeKinds : List Kind := [.identifier, .member, .subscript, .nonNull, .undefinedLiteral]

/-- Kinds of what a value is bound to. -/
def bindingKinds : List Kind := [.objectPattern, .arrayPattern, .restPattern] ++ placeKinds

/-- The parameters of a function. -/
def parameters : Form :=
  let mark (words : List String) : Form :=
    .maybe (.seq [.alt (words.map word), .ahead (.rule .binding)])
  let head : Form := .seq [
    .many decorator,
    mark ["public", "private", "protected"], mark ["override"], mark ["readonly"],
    .role .pattern (.alt [.rule .binding, literal .this "this"])]
  let rest : Form := .seq [.maybe (.rule .typeMark), .maybe initialValue]
  let parameter : Form := .chain head [
    { kind := .optionalParameter, accepts := .this :: bindingKinds, rest := .seq [sign "?", rest] },
    { kind := .requiredParameter, accepts := .this :: bindingKinds, rest := rest }]
  .node .formalParameters (.closed (.seq [sign "(", .maybe (commaList parameter), sign ")"]))

/-- What a value is bound to. -/
def binding : Form :=
  .alt [
    .rule .objectBinding,
    .rule .arrayBinding,
    .node .restPattern (.seq [sign "...", .rule .binding]),
    .ofKind placeKinds (.chain
      (.alt [
        literal .this "this", literal .super "super", literal .undefinedLiteral "undefined",
        newName])
      [memberGrowth, subscriptGrowth, nonNullGrowth]) ]

/-- What a value is bound to, with a value to use where there is none. -/
def defaultedBinding : Form :=
  .chain (.rule .binding) [
    { kind := .assignmentPattern, accepts := bindingKinds, rest := .seq [equals, expression] }]

/-- Names for the properties of a value. -/
def objectBinding : Form :=
  .node .objectPattern (.closed (.seq [
    openBrace,
    sparseList (.alt [
      .node .pairPattern (.seq [
        .role .key (.rule .propertyName), sign ":", .role .value defaultedBinding]),
      .node .restPattern (.seq [sign "...", .rule .binding]),
      .node .objectAssignmentPattern (.seq [
        .role .left (.alt [
          .rule .objectBinding, .rule .arrayBinding, anyName .shorthandPattern]),
        equals, .role .right expression]),
      anyName .shorthandPattern]),
    closeBrace]))

/-- Names for the items of a value. -/
def arrayBinding : Form :=
  .node .arrayPattern (.closed (.seq [sign "[", sparseList defaultedBinding, sign "]"]))

end Restyle.Tsx.Grammar
