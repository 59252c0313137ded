import Restyle.Css.Slot

/-!
# Rules

A style sheet is a tree of rules.  A rule has a selector or an at-rule prelude, its own declarations
and its nested rules in source order, and it knows the at-rule preludes it stands under.
-/

namespace Restyle.Css

/-- A property with its value; without a property the value is a text in block position. -/
structure Declaration where
  property : String
  value : String
  deriving DecidableEq, Repr

namespace Declaration

/-- The slots of a declaration, those of the property first. -/
def slots (d : Declaration) : List Nat :=
  Slot.indices d.property ++ Slot.indices d.value

/-- Whether a declaration is a lone slot in block position. -/
def isBlockSlot (d : Declaration) : Bool :=
  d.property.isEmpty && Slot.isWhole d.value

/-- The text of a declaration. -/
def text (d : Declaration) : String :=
  if d.property.isEmpty then d.value ++ ";" else d.property ++ ": " ++ d.value ++ ";"

end Declaration

/-- Whether a selector is an at-rule prelude. -/
def isAtRule (selector : String) : Bool :=
  Text.hasLead "@" selector

/-- A rule with its declarations, its nested rules and the preludes it stands under, outermost first. -/
structure Rule where
  selector : String
  declarations : List Declaration := []
  nested : List Rule := []
  atRules : List String := []
  deriving Repr

namespace Rule

mutual

/-- A rule and all rules below it, outer rules first. -/
def walk : Rule → List Rule
  | ⟨selector, declarations, nested, atRules⟩ =>
    ⟨selector, declarations, nested, atRules⟩ :: walkAll nested

/-- The rules of a list with all rules below them. -/
def walkAll : List Rule → List Rule
  | [] => []
  | rule :: rules => rule.walk ++ walkAll rules

end

mutual

/-- The number of rules below a rule. -/
def countNested : Rule → Nat
  | ⟨_, _, nested, _⟩ => countAll nested

/-- The number of rules of a list, nested ones included. -/
def countAll : List Rule → Nat
  | [] => 0
  | rule :: rules => rule.countNested + 1 + countAll rules

end

mutual

/-- The text of the inside of a rule: its declarations, then its nested rules. -/
def bodyText : Rule → String
  | ⟨_, declarations, nested, _⟩ =>
    "\n".intercalate (declarations.map Declaration.text) ++ "\n" ++ nestedText nested

/-- The texts of the nested rules, each with its selector and braces. -/
def nestedText : List Rule → String
  | [] => ""
  | rule :: rules => rule.selector ++ " \x7b\n" ++ rule.bodyText ++ "\x7d\n" ++ nestedText rules

end

end Rule

end Restyle.Css
