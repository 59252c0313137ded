import Restyle.Tsx.Grammar.Expression
import Restyle.Tsx.Grammar.Markup
import Restyle.Tsx.Grammar.Statement
import Restyle.Tsx.Grammar.TypeForm

/-!
# The grammar of a module

The table that gives each rule its form.
-/

namespace Restyle.Tsx

/-- The form of each rule. -/
def Rule.form : Rule → Form
  | .statement => Grammar.statement
  | .block => Grammar.block
  | .declaration => Grammar.declaration
  | .declarators => Grammar.declarators
  | .classBody => Grammar.classBody
  | .classForm => Grammar.classForm
  | .functionDeclaration => Grammar.functionDeclaration
  | .sequence => Grammar.sequence
  | .operand tie => Grammar.operand tie
  | .primary => Grammar.primary
  | .arrow => Grammar.arrow
  | .function => Grammar.function
  | .template => Grammar.template
  | .object => Grammar.object
  | .property => Grammar.property
  | .propertyName => Grammar.propertyName
  | .callSignature => Grammar.callSignature
  | .parameters => Grammar.parameters
  | .arguments => Grammar.arguments
  | .binding => Grammar.binding
  | .objectBinding => Grammar.objectBinding
  | .arrayBinding => Grammar.arrayBinding
  | .parenthesized => Grammar.parenthesized
  | .type => Grammar.type
  | .unionType => Grammar.unionType
  | .typeOperand => Grammar.typeOperand
  | .typePrimary => Grammar.typePrimary
  | .typeMark => Grammar.typeMark
  | .resultType => Grammar.resultType
  | .objectType => Grammar.objectType
  | .typeArguments => Grammar.typeArguments
  | .typeParameters => Grammar.typeParameters
  | .element => Grammar.element
  | .elementName => Grammar.elementName
  | .tagAttribute => Grammar.tagAttribute
  | .container => Grammar.container

end Restyle.Tsx
