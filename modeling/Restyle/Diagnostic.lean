import Restyle.Data.Basic
import Restyle.Text.Blank

/-!
# Diagnostics

Everything a migration cannot express is reported as a diagnostic of one of a fixed set of kinds; the
kind determines the message and the category.  Diagnostics are collected in order, and structural
findings only once.
-/

namespace Restyle

/-- How serious a diagnostic is. -/
inductive Severity where
  | info
  | warning
  | error
  deriving DecidableEq, Repr

/-- The word for a severity. -/
def Severity.text : Severity → String
  | .info => "info"
  | .warning => "warning"
  | .error => "error"

/-- Whether a diagnostic is about a construct of the module or about one interpolation. -/
inductive DiagnosticCategory where
  | unsupportedFeature
  | dynamicNode
  deriving DecidableEq, Repr

/-- The word for a category. -/
def DiagnosticCategory.text : DiagnosticCategory → String
  | .unsupportedFeature => "unsupported-feature"
  | .dynamicNode => "dynamic-node"

/-- The kinds of diagnostics. -/
inductive DiagnosticKind where
  | adapterCallUnparseableStyles
  | adapterCallUnparseableValue
  | adapterValueUnparseable
  | adapterValueUndefinedImport
  | adapterStylesUnderSelector
  | adapterStylesPseudoNoCssText
  | adapterCallContract
  | adapterBorderHelper
  | arrowUnrecognizedBody
  | arrowConditionalBranches
  | arrowHelperCallBody
  | arrowIndexedTheme
  | arrowLogical
  | arrowThemePath
  | complexSelector
  | componentSelector
  | specificityHack
  | universalSelector
  | selectorImportedValue
  | selectorAttributeElement
  | selectorClass
  | selectorComma
  | selectorDescendantPseudo
  | selectorCombinator
  | selectorInterpolatedPseudo
  | selectorSibling
  | selectorUnknownComponent
  | cssBlockImportant
  | cssBlockAtRule
  | cssBlockParse
  | cssBlockMissingProperty
  | cssBlockMissingExpression
  | cssBlockMixedValues
  | cssBlockMultipleSlots
  | cssBlockSelector
  | cssHelperSwitch
  | helperImportSource
  | directionalBorderHelper
  | importedMixinPseudo
  | mixinNotPlainObject
  | mixinNonLiteralBase
  | mixinNestedConditions
  | componentAsMixin
  | unclassifiedInterpolation
  | pseudoElementDynamic
  | failedToParseExpression
  | failedToParseTheme
  | heterogeneousBackground
  | themeBlockConditional
  | unsupportedCall
  | unsupportedCallee
  | unsupportedArrow
  | unsupportedCallExpression
  | unsupportedIdentifier
  | unsupportedMember
  | unsupportedProperty
  | unsupportedUnknown
  | inlineStyleUnsafe
  | inlineStyleTheme
  | createGlobalStyle
  | hocStyledFactory
  | staticProperties
  | shouldForwardPropTest
  deriving DecidableEq, Repr

namespace DiagnosticKind

/-- The message of a kind. -/
def message : DiagnosticKind → String
  | .adapterCallUnparseableStyles =>
    "Adapter resolveCall returned an unparseable styles expression"
  | .adapterCallUnparseableValue =>
    "Adapter resolveCall returned an unparseable value expression"
  | .adapterValueUnparseable => "Adapter resolveValue returned an unparseable value expression"
  | .adapterValueUndefinedImport =>
    "Adapter resolveValue returned undefined for imported value"
  | .adapterStylesUnderSelector =>
    "Adapter resolved StyleX styles cannot be applied under nested selectors/at-rules"
  | .adapterStylesPseudoNoCssText =>
    "Adapter resolved StyleX styles inside pseudo selector but did not provide cssText for " ++
      "property expansion — add cssText to resolveCall result to enable pseudo-wrapping"
  | .adapterCallContract =>
    "Adapter.resolveCall must return \x7b usage: 'props' | 'create', expr, imports \x7d"
  | .adapterBorderHelper =>
    "Adapter helper call in border interpolation did not resolve to a single CSS value"
  | .arrowUnrecognizedBody =>
    "Arrow function: body is not a recognized pattern (expected ternary, logical, call, or " ++
      "member expression)"
  | .arrowConditionalBranches =>
    "Arrow function: conditional branches could not be resolved to static or theme values"
  | .arrowHelperCallBody => "Arrow function: helper call body is not supported"
  | .arrowIndexedTheme => "Arrow function: indexed theme lookup pattern not matched"
  | .arrowLogical => "Arrow function: logical expression pattern not supported"
  | .arrowThemePath => "Arrow function: theme access path could not be resolved"
  | .complexSelector =>
    "Complex selectors (grouped selectors, descendant element selectors, class-conditioned " ++
      "selectors, or :not() chains) are not currently supported"
  | .componentSelector =>
    "Component selectors like \x60$\x7bOtherComponent\x7d:hover &\x60 are not directly " ++
      "representable in StyleX. Manual refactor is required"
  | .specificityHack =>
    "Styled-components specificity hacks like \x60&&\x60 / \x60&&&\x60 are not " ++
      "representable in StyleX"
  | .universalSelector => "Universal selectors (\x60*\x60) are currently unsupported"
  | .selectorImportedValue =>
    "Unsupported selector interpolation: imported value in selector position"
  | .selectorAttributeElement =>
    "Unsupported selector: attribute selector on unsupported element"
  | .selectorClass => "Unsupported selector: class selector"
  | .selectorComma =>
    "Unsupported selector: comma-separated selectors must all be simple pseudos"
  | .selectorDescendantPseudo =>
    "Unsupported selector: descendant pseudo selector (space before pseudo)"
  | .selectorCombinator => "Unsupported selector: descendant/child/sibling selector"
  | .selectorInterpolatedPseudo => "Unsupported selector: interpolated pseudo selector"
  | .selectorSibling => "Unsupported selector: sibling combinator"
  | .selectorUnknownComponent => "Unsupported selector: unknown component selector"
  | .cssBlockImportant =>
    "Conditional \x60css\x60 block: !important is not supported in StyleX"
  | .cssBlockAtRule =>
    "Conditional \x60css\x60 block: @-rules (e.g., @media, @supports) are not supported"
  | .cssBlockParse => "Conditional \x60css\x60 block: failed to parse expression"
  | .cssBlockMissingProperty => "Conditional \x60css\x60 block: missing CSS property name"
  | .cssBlockMissingExpression =>
    "Conditional \x60css\x60 block: missing interpolation expression"
  | .cssBlockMixedValues =>
    "Conditional \x60css\x60 block: mixed static/dynamic values with non-theme expressions " ++
      "cannot be safely transformed"
  | .cssBlockMultipleSlots =>
    "Conditional \x60css\x60 block: multiple interpolation slots in a single property value"
  | .cssBlockSelector => "Conditional \x60css\x60 block: unsupported selector"
  | .cssHelperSwitch =>
    "\x60css\x60 helper function switch must return css templates in all branches"
  | .helperImportSource => "Could not resolve import source for helper call"
  | .directionalBorderHelper => "Directional border helper styles are not supported"
  | .importedMixinPseudo =>
    "Imported CSS helper mixins: cannot determine inherited properties for correct pseudo " ++
      "selector handling"
  | .mixinNotPlainObject =>
    "Unsupported css\x60\x60 mixin: after-base mixin style is not a plain object"
  | .mixinNonLiteralBase =>
    "Unsupported css\x60\x60 mixin: cannot infer base default for after-base contextual " ++
      "override (base value is non-literal)"
  | .mixinNestedConditions =>
    "Unsupported css\x60\x60 mixin: nested contextual conditions in after-base mixin"
  | .componentAsMixin =>
    "Using styled-components components as mixins is not supported; use css\x60\x60 mixins " ++
      "or strings instead"
  | .unclassifiedInterpolation =>
    "Dynamic interpolation could not be classified (e.g., comment or unsupported position) " ++
      "and requires manual handling."
  | .pseudoElementDynamic =>
    "Dynamic styles inside pseudo elements (::before/::after) are not supported by StyleX. " ++
      "See https://github.com/facebook/stylex/issues/1396"
  | .failedToParseExpression => "Failed to parse expression"
  | .failedToParseTheme => "Failed to parse theme expressions"
  | .heterogeneousBackground =>
    "Heterogeneous background values (mix of gradients and colors) not currently supported"
  | .themeBlockConditional =>
    "Theme-dependent block-level conditional could not be fully resolved (branches may " ++
      "contain dynamic interpolations)"
  | .unsupportedCall =>
    "Unsupported call expression (expected imported helper(...) or imported " ++
      "helper(...)(...))"
  | .unsupportedCallee => "Unsupported call expression callee (expected identifier)"
  | .unsupportedArrow => "Unsupported interpolation: arrow function"
  | .unsupportedCallExpression => "Unsupported interpolation: call expression"
  | .unsupportedIdentifier => "Unsupported interpolation: identifier"
  | .unsupportedMember => "Unsupported interpolation: member expression"
  | .unsupportedProperty => "Unsupported interpolation: property"
  | .unsupportedUnknown => "Unsupported interpolation: unknown"
  | .inlineStyleUnsafe =>
    "Unsupported prop-based inline style expression cannot be safely inlined"
  | .inlineStyleTheme =>
    "Unsupported prop-based inline style props.theme access is not supported"
  | .createGlobalStyle =>
    "createGlobalStyle is not supported in StyleX. Global styles should be handled " ++
      "separately (e.g., in a CSS file or using CSS reset libraries)"
  | .hocStyledFactory =>
    "Higher-order styled factory wrappers (e.g. hoc(styled)) are not supported"
  | .staticProperties =>
    "Static properties on styled components (e.g. Styled.Component) are not supported"
  | .shouldForwardPropTest => "Unsupported conditional test in shouldForwardProp"

/-- The kinds that report a single interpolation. -/
def dynamicNodes : List DiagnosticKind :=
  [.adapterCallUnparseableStyles, .adapterCallUnparseableValue, .adapterValueUnparseable,
    .adapterValueUndefinedImport, .adapterCallContract, .adapterBorderHelper,
    .arrowUnrecognizedBody, .arrowConditionalBranches, .arrowHelperCallBody,
    .arrowIndexedTheme, .arrowLogical, .arrowThemePath, .unclassifiedInterpolation,
    .failedToParseExpression, .failedToParseTheme, .helperImportSource, .unsupportedCall,
    .unsupportedCallee, .unsupportedArrow, .unsupportedCallExpression, .unsupportedIdentifier,
    .unsupportedMember, .unsupportedProperty, .unsupportedUnknown, .inlineStyleUnsafe,
    .inlineStyleTheme]

/-- The category of a kind. -/
def category (kind : DiagnosticKind) : DiagnosticCategory :=
  if dynamicNodes.contains kind then .dynamicNode else .unsupportedFeature

end DiagnosticKind

/-- A place in a module; lines and columns count from one. -/
structure Location where
  line : Nat
  column : Nat
  deriving DecidableEq, Repr

/-- One reported problem; the context holds further details by name. -/
structure Diagnostic where
  kind : DiagnosticKind
  severity : Severity := .warning
  location : Option Location := none
  context : List (String × Data) := []

namespace Diagnostic

/-- The category of a diagnostic is that of its kind. -/
def category (d : Diagnostic) : DiagnosticCategory :=
  d.kind.category

/-- The line that reports a diagnostic in a file. -/
def text (d : Diagnostic) (file : String) : String :=
  let place :=
    match d.location with
    | some l => file ++ ":" ++ toString l.line ++ ":" ++ toString l.column
    | none => file
  Text.strip (place ++ " " ++ d.severity.text ++ " " ++ d.kind.message)

end Diagnostic

/-- The diagnostics of one file in order, and which structural findings have been reported. -/
structure Diagnostics where
  items : List Diagnostic := []
  seen : List (DiagnosticKind × String) := []

namespace Diagnostics

/-- Adds a diagnostic at the end; details without a value are left out. -/
def report (s : Diagnostics) (d : Diagnostic) : Diagnostics :=
  { s with items := s.items ++ [{ d with context := d.context.filter fun (_, v) => !v.isNull }] }

/-- Adds a diagnostic unless one of its kind was reported under the same mark. -/
def reportOnce (s : Diagnostics) (mark : String) (d : Diagnostic) : Diagnostics × Bool :=
  if s.seen.contains (d.kind, mark) then (s, false)
  else ({ s with seen := (d.kind, mark) :: s.seen }.report d, true)

/-- Adds diagnostics at the end. -/
def extend (s : Diagnostics) (ds : List Diagnostic) : Diagnostics :=
  { s with items := s.items ++ ds }

/-- The diagnostics of one category. -/
def ofCategory (s : Diagnostics) (category : DiagnosticCategory) : List Diagnostic :=
  s.items.filter fun d => d.category == category

/-- Whether an error was reported. -/
def hasErrors (s : Diagnostics) : Bool :=
  s.items.any fun d => d.severity == .error

end Diagnostics

end Restyle
