import Restyle.Diagnostic

/-!
# Names of diagnostics

Every kind of diagnostic has a name by which adapters refer to it.
-/

namespace Restyle.DiagnosticKind

/-- The kinds with their names. -/
def named : List (String × DiagnosticKind) :=
  [
    ("ADAPTER_CALL_UNPARSEABLE_STYLES", .adapterCallUnparseableStyles),
    ("ADAPTER_CALL_UNPARSEABLE_VALUE", .adapterCallUnparseableValue),
    ("ADAPTER_VALUE_UNPARSEABLE", .adapterValueUnparseable),
    ("ADAPTER_VALUE_UNDEFINED_IMPORT", .adapterValueUndefinedImport),
    ("ADAPTER_STYLES_UNDER_SELECTOR", .adapterStylesUnderSelector),
    ("ADAPTER_STYLES_PSEUDO_NO_CSS_TEXT", .adapterStylesPseudoNoCssText),
    ("ADAPTER_CALL_CONTRACT", .adapterCallContract),
    ("ADAPTER_BORDER_HELPER", .adapterBorderHelper),
    ("ARROW_UNRECOGNIZED_BODY", .arrowUnrecognizedBody),
    ("ARROW_CONDITIONAL_BRANCHES", .arrowConditionalBranches),
    ("ARROW_HELPER_CALL_BODY", .arrowHelperCallBody),
    ("ARROW_INDEXED_THEME", .arrowIndexedTheme),
    ("ARROW_LOGICAL", .arrowLogical),
    ("ARROW_THEME_PATH", .arrowThemePath),
    ("COMPLEX_SELECTOR", .complexSelector),
    ("COMPONENT_SELECTOR", .componentSelector),
    ("SPECIFICITY_HACK", .specificityHack),
    ("UNIVERSAL_SELECTOR", .universalSelector),
    ("SELECTOR_IMPORTED_VALUE", .selectorImportedValue),
    ("SELECTOR_ATTRIBUTE_ELEMENT", .selectorAttributeElement),
    ("SELECTOR_CLASS", .selectorClass),
    ("SELECTOR_COMMA", .selectorComma),
    ("SELECTOR_DESCENDANT_PSEUDO", .selectorDescendantPseudo),
    ("SELECTOR_COMBINATOR", .selectorCombinator),
    ("SELECTOR_INTERPOLATED_PSEUDO", .selectorInterpolatedPseudo),
    ("SELECTOR_SIBLING", .selectorSibling),
    ("SELECTOR_UNKNOWN_COMPONENT", .selectorUnknownComponent),
    ("CSS_BLOCK_IMPORTANT", .cssBlockImportant),
    ("CSS_BLOCK_AT_RULE", .cssBlockAtRule),
    ("CSS_BLOCK_PARSE", .cssBlockParse),
    ("CSS_BLOCK_MISSING_PROPERTY", .cssBlockMissingProperty),
    ("CSS_BLOCK_MISSING_EXPRESSION", .cssBlockMissingExpression),
    ("CSS_BLOCK_MIXED_VALUES", .cssBlockMixedValues),
    ("CSS_BLOCK_MULTIPLE_SLOTS", .cssBlockMultipleSlots),
    ("CSS_BLOCK_SELECTOR", .cssBlockSelector),
    ("CSS_HELPER_SWITCH", .cssHelperSwitch),
    ("HELPER_IMPORT_SOURCE", .helperImportSource),
    ("DIRECTIONAL_BORDER_HELPER", .directionalBorderHelper),
    ("IMPORTED_MIXIN_PSEUDO", .importedMixinPseudo),
    ("MIXIN_NOT_PLAIN_OBJECT", .mixinNotPlainObject),
    ("MIXIN_NON_LITERAL_BASE", .mixinNonLiteralBase),
    ("MIXIN_NESTED_CONDITIONS", .mixinNestedConditions),
    ("COMPONENT_AS_MIXIN", .componentAsMixin),
    ("UNCLASSIFIED_INTERPOLATION", .unclassifiedInterpolation),
    ("PSEUDO_ELEMENT_DYNAMIC", .pseudoElementDynamic),
    ("FAILED_TO_PARSE_EXPRESSION", .failedToParseExpression),
    ("FAILED_TO_PARSE_THEME", .failedToParseTheme),
    ("HETEROGENEOUS_BACKGROUND", .heterogeneousBackground),
    ("THEME_BLOCK_CONDITIONAL", .themeBlockConditional),
    ("UNSUPPORTED_CALL", .unsupportedCall),
    ("UNSUPPORTED_CALLEE", .unsupportedCallee),
    ("UNSUPPORTED_ARROW", .unsupportedArrow),
    ("UNSUPPORTED_CALL_EXPRESSION", .unsupportedCallExpression),
    ("UNSUPPORTED_IDENTIFIER", .unsupportedIdentifier),
    ("UNSUPPORTED_MEMBER", .unsupportedMember),
    ("UNSUPPORTED_PROPERTY", .unsupportedProperty),
    ("UNSUPPORTED_UNKNOWN", .unsupportedUnknown),
    ("INLINE_STYLE_UNSAFE", .inlineStyleUnsafe),
    ("INLINE_STYLE_THEME", .inlineStyleTheme),
    ("CREATE_GLOBAL_STYLE", .createGlobalStyle),
    ("HOC_STYLED_FACTORY", .hocStyledFactory),
    ("STATIC_PROPERTIES", .staticProperties),
    ("SHOULD_FORWARD_PROP_TEST", .shouldForwardPropTest) ]

/-- The kind of a name. -/
def ofName? (name : String) : Option DiagnosticKind :=
  (named.find? fun (n, _) => n == name).map (·.2)

end Restyle.DiagnosticKind
