/-!
# Ties between operands

How far an operand reaches depends on what waits on its left: after a minus sign only accesses and
the like belong to it, after an arrow all that follows does.  A tie says what waits, a suffix says
what comes next, and `Tie.takes` decides between them.
-/

namespace Restyle.Tsx

/-- What waits on the left of an operand. -/
inductive Tie where
  /-- Nothing, or something that reaches as far as possible, such as an arrow or an assignment. -/
  | free
  /-- A binary operator; a higher level binds tighter. -/
  | binary (level : Nat)
  /-- A sign or word before its operand. -/
  | unary
  /-- An increment or decrement before its operand. -/
  | update
  | await
  /-- A place for a name with accesses and calls only. -/
  | access
  deriving DecidableEq, Repr

/-- What may follow an operand. -/
inductive Suffix where
  /-- An access to a member, a call, or a text with substitutions. -/
  | access
  /-- A call with type arguments. -/
  | typedCall
  /-- Type arguments alone. -/
  | typeArguments
  /-- An increment or decrement. -/
  | update
  /-- An assertion about the type: a mark that there is a value, or a word and a type. -/
  | assertion
  | binary (level : Nat)
  /-- A choice between two values. -/
  | choice
  | assignment
  deriving DecidableEq, Repr

/-- The level of powers, the only binary operator that groups to the right. -/
def powerLevel : Nat := 14

/-- The level of comparisons. -/
def relationLevel : Nat := 10

namespace Tie

/-- Whether an operand takes a suffix along, although something waits on its left. -/
def takes : Tie → Suffix → Bool
  | .free, _ => true
  | .access, suffix => suffix == .access || suffix == .typedCall
  | _, .access | _, .typeArguments | _, .assignment => true
  | .binary level, .typedCall => level ≤ relationLevel
  | .binary level, .assertion => level == powerLevel
  | .binary level, .binary next => level < next || (level == next && level == powerLevel)
  | .binary _, .update | .unary, .update | .await, .update => true
  | .await, .assertion => true
  | _, _ => false

end Tie

end Restyle.Tsx
