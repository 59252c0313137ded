import Restyle.Interpolation.Classify

/-!
# What tests mean

The values that a test of props works on, their truth, the two equalities, and the evaluation of a test
for given props.  What a test does not settle by itself, such as the value that a literal denotes or the
value of a default, is left to an engine; nothing here depends on which one it is.
-/

namespace Restyle.Script

open Restyle.Tsx (Node)

/-! ## Values -/

/-- Values other than objects. -/
inductive Primitive where
  | undefined
  | null
  | bool (b : Bool)
  | number (x : Double)
  | text (s : String)
  deriving DecidableEq, Repr

/-- A value; an object has an identity, properties, and a primitive that loose comparisons turn it into. -/
inductive Value where
  | primitive (p : Primitive)
  | object (identity : Nat) (properties : List (String × Value)) (converted : Primitive)

namespace Primitive

/-- Whether a primitive counts as true. -/
def truthy : Primitive → Bool
  | .undefined | .null => false
  | .bool b => b
  | .number x => !(x.isZero || x == .nan)
  | .text s => !s.isEmpty

/-- Equal numbers; the two zeros are equal, and what is not a number is equal to nothing. -/
def equalNumbers (x y : Double) : Bool :=
  x != .nan && y != .nan && (x == y || x.isZero && y.isZero)

/-- `===` on primitives. -/
def same : Primitive → Primitive → Bool
  | .undefined, .undefined | .null, .null => true
  | .bool a, .bool b => a == b
  | .number x, .number y => equalNumbers x y
  | .text s, .text t => s == t
  | _, _ => false

/-- Whether a primitive is one of the two empty ones. -/
def isEmpty : Primitive → Bool
  | .undefined | .null => true
  | _ => false

/-- The number that a primitive is turned into; texts are read by the engine. -/
def toNumber (read : String → Double) : Primitive → Double
  | .undefined => .nan
  | .null | .bool false => .finite false 0 (-1074)
  | .bool true => Double.ofInt 1
  | .number x => x
  | .text s => read s

/-- `==` on primitives. -/
def alike (read : String → Double) (a b : Primitive) : Bool :=
  if a.isEmpty || b.isEmpty then a.isEmpty && b.isEmpty
  else
    match a, b with
    | .text s, .text t => s == t
    | a, b => equalNumbers (a.toNumber read) (b.toNumber read)

end Primitive

namespace Value

/-- Whether a value counts as true. -/
def truthy : Value → Bool
  | .primitive p => p.truthy
  | .object .. => true

/-- `===` between a value and a primitive. -/
def same : Value → Primitive → Bool
  | .primitive p, q => p.same q
  | .object .., _ => false

/-- `==` between a value and a primitive. -/
def alike (read : String → Double) : Value → Primitive → Bool
  | .primitive p, q => p.alike read q
  | .object _ _ converted, q => !q.isEmpty && converted.alike read q

/-- A truth value. -/
def ofBool (b : Bool) : Value := .primitive (.bool b)

/-- The props of a component. -/
def ofProps (props : Table Value) : Value := .object 0 props (.text "[object Object]")

/-- A property of an object; one that is not there is undefined. -/
def field (properties : Table Value) (key : String) : Value :=
  (properties.get? key).getD (.primitive .undefined)

end Value

theorem same_self {p : Primitive} (h : p ≠ .number .nan) : p.same p = true := by
  cases p with
  | number x =>
      have hx : x ≠ .nan := fun e => h (e ▸ rfl)
      simp [Primitive.same, Primitive.equalNumbers, hx]
  | _ => simp [Primitive.same]

theorem alike_self (read : String → Double) {p : Primitive} (h : p ≠ .number .nan) :
    p.alike read p = true := by
  cases p with
  | number x =>
      have hx : x ≠ .nan := fun e => h (e ▸ rfl)
      simp [Primitive.alike, Primitive.isEmpty, Primitive.toNumber, Primitive.equalNumbers, hx]
  | bool b => cases b <;> rfl
  | _ => simp [Primitive.alike, Primitive.isEmpty]

/-- What is equal to one of two equal primitives is equal to the other. -/
theorem same_congr {p q : Primitive} (h : q.same p = true) (v : Value) : v.same q = v.same p := by
  cases v with
  | object => rfl
  | primitive u =>
      show u.same q = u.same p
      cases q <;> cases p <;> simp_all [Primitive.same]
      cases u <;> simp_all [Primitive.equalNumbers]
      grind [Double.isZero]

/-- An object that is turned into nothing is equal to no literal. -/
theorem alike_object_undefined (read : String → Double) (identity : Nat) (properties : Table Value)
    (p : Primitive) : (Value.object identity properties .undefined).alike read p = false := by
  cases p <;> rfl

/-- An object that is turned into a literal is loosely equal to it. -/
theorem alike_object_self (read : String → Double) (identity : Nat) (properties : Table Value)
    {p : Primitive} (h : p ≠ .number .nan) (hfull : p.isEmpty = false) :
    (Value.object identity properties p).alike read p = true := by
  simp [Value.alike, hfull, alike_self read h]

/-! ## Engines -/

/-- What the meaning of a test depends on beside its form. -/
structure Engine where
  /-- The number that a text is turned into. -/
  number : String → Double
  /-- The value of a literal. -/
  literal : Node → Primitive
  /-- The value of a text that is a literal, maybe with a sign. -/
  read : String → Option Primitive
  /-- The properties of texts, numbers and truth values. -/
  property : Primitive → String → Value
  /-- An access to a property of an empty value; it fails unless it is optional. -/
  emptyAccess : Node → Option Value
  /-- The name that a computed key stands for. -/
  key : Node → String
  /-- The value of a default. -/
  default : Node → Value
  /-- The value of an expression that is no test. -/
  other : Node → Option Value
  literal_ne_nan : ∀ n, literal n ≠ .number .nan
  read_ne_nan : ∀ text, read text ≠ some (.number .nan)

/-- The value of a property. -/
def Engine.get (E : Engine) (access : Node) : Value → String → Option Value
  | .primitive .undefined, _ | .primitive .null, _ => E.emptyAccess access
  | .primitive p, key => some (E.property p key)
  | .object _ properties _, key => some (Value.field properties key)

/-- The value of a number with the opposite sign. -/
def opposite : Primitive → Primitive
  | .number x => .number x.neg
  | p => p

mutual

/-- The value of an expression that is a literal, maybe after minus signs. -/
def constant (E : Engine) : Node → Primitive
  | ⟨kind, role, start, stop, text, children⟩ =>
    let self : Node := ⟨kind, role, start, stop, text, children⟩
    if self.isWrapper then constantFirst E children
    else if kind == .unary then opposite (constantArgument E children)
    else E.literal self

/-- The value of the first node that is no token. -/
def constantFirst (E : Engine) : List Node → Primitive
  | [] => .undefined
  | n :: ns => if n.kind == .token then constantFirst E ns else constant E n

/-- The value of the operand. -/
def constantArgument (E : Engine) : List Node → Primitive
  | [] => .undefined
  | n :: ns => if n.role == some .argument then constant E n else constantArgument E ns

end

/-- What a comparison with a literal gives. -/
def Engine.compare (E : Engine) (operator : String) (v : Value) (p : Primitive) : Bool :=
  match operator with
  | "===" => v.same p
  | "!==" => !v.same p
  | "==" => v.alike E.number p
  | _ => !v.alike E.number p

mutual

/-- The value of an expression for given values of names; there is none where evaluation fails. -/
def eval (E : Engine) (names : String → Option Value) : Node → Option Value
  | ⟨kind, role, start, stop, text, children⟩ =>
    let self : Node := ⟨kind, role, start, stop, text, children⟩
    if self.isWrapper then evalFirst E names children
    else
      match kind with
      | .identifier | .this => names text
      | .member => do
        let object ← evalPart E names .object children
        let property ← self.child? .property
        E.get self object property.text
      | .subscript => do
        let object ← evalPart E names .object children
        let index ← self.child? .index
        if index.unwrap.kind == .string then E.get self object (Tsx.stringValue index.unwrap.text)
        else E.other self
      | .unary => do
        let v ← evalPart E names .argument children
        if (self.child? .operator).any fun op => op.text == "!" then some (.ofBool !v.truthy)
        else E.other self
      | .binary => do
        let v ← evalPart E names .left children
        let operator ← self.child? .operator
        let right ← self.child? .right
        if Interpolation.comparisons.contains operator.text then
          some (.ofBool (E.compare operator.text v (constant E right)))
        else E.other self
      | _ => E.other self

/-- The value of the first node that is no token. -/
def evalFirst (E : Engine) (names : String → Option Value) : List Node → Option Value
  | [] => none
  | n :: ns => if n.kind == .token then evalFirst E names ns else eval E names n

/-- The value of the first node that plays a part. -/
def evalPart (E : Engine) (names : String → Option Value) (role : Tsx.Role) :
    List Node → Option Value
  | [] => none
  | n :: ns => if n.role == some role then eval E names n else evalPart E names role ns

end

/-! ## Functions of the props -/

/-- What a name in a function of the props stands for. -/
inductive Binding where
  /-- The props themselves. -/
  | props
  /-- A prop. -/
  | prop (key : String)
  /-- A prop with a default. -/
  | withDefault (key : String) (default : Node)

/-- The value of what a name stands for. -/
def Binding.value (E : Engine) (props : Table Value) : Binding → Value
  | .props => .ofProps props
  | .prop key => Value.field props key
  | .withDefault key default =>
    match Value.field props key with
    | .primitive .undefined => E.default default
    | v => v

/-- The prop that an entry of a pattern takes. -/
def keyOf (E : Engine) (entry : Node) : String :=
  match entry.child? .key with
  | some key =>
    if key.kind == .string then Tsx.stringValue key.text
    else if key.kind == .computedName then E.key key
    else key.text
  | none => E.key entry

/-- Words that name no variable in a module. -/
def reserved : List String :=
  ["arguments", "await", "break", "case", "catch", "class", "const", "continue", "debugger", "default",
   "delete", "do", "else", "enum", "eval", "export", "extends", "false", "finally", "for", "function",
   "if", "implements", "import", "in", "instanceof", "interface", "let", "new", "null", "package",
   "private", "protected", "public", "return", "static", "super", "switch", "this", "throw", "true",
   "try", "typeof", "var", "void", "while", "with", "yield"]

/-- Whether a text names a variable. -/
def isVariable (name : String) : Bool :=
  name.toList.head?.any Tsx.isNameStart && name.toList.all Tsx.isNameChar && !reserved.contains name

/-- What an entry of a pattern binds a name to, if it is the name of a variable. -/
def entryBinding? (E : Engine) (name : String) (entry : Node) : Option Binding :=
  if isVariable name then
    match entry.kind with
    | .shorthandPattern => if entry.text == name then some (.prop name) else none
    | .objectAssignmentPattern =>
      if ((entry.child? .left).map Node.text) == some name then
        some (.withDefault name ((entry.child? .right).getD entry))
      else none
    | .pairPattern =>
      if (((entry.child? .value).filter Node.isIdentifier).map Node.text) == some name then
        some (.prop (keyOf E entry))
      else none
    | _ => none
  else none

/-- What the parameter of a function binds a name to. -/
def binding? (E : Engine) (f : Node) (name : String) : Option Binding :=
  match f.child? .parameter with
  | some single => if single.text == name then some .props else none
  | none =>
    match ((f.child? .parameters).map Node.operands).getD [] with
    | [item] =>
      let pattern :=
        if item.kind == .requiredParameter || item.kind == .optionalParameter then
          (item.child? .pattern).getD item
        else item
      match pattern.kind with
      | .identifier => if pattern.text == name then some .props else none
      | .objectPattern => pattern.named.findSome? (entryBinding? E name)
      | _ => none
    | _ => none

/-- What a tested name stands for; a name that no pattern binds is a prop of the parameter. -/
def source (E : Engine) (f : Node) (name : String) : Binding :=
  match binding? E f name with
  | some (.prop key) => .prop key
  | some (.withDefault key default) => .withDefault key default
  | _ => .prop name

/-- The values of the names in a function of the props. -/
def namesIn (E : Engine) (f : Node) (props : Table Value) (name : String) : Option Value :=
  (binding? E f name).map (Binding.value E props)

/-- The test of a ternary or a conjunction. -/
def testIn? (body : Node) : Option Node :=
  match body.kind with
  | .ternary => body.child? .condition
  | .binary => body.child? .left
  | _ => none

/-- The test of a function of the props. -/
def test? (f : Node) : Option Node :=
  (f.child? .body).bind fun body => testIn? body.unwrap

/-- Which branch an expression selects for given props: that for true, that for false, or none. -/
def selection (E : Engine) (n : Node) (props : Table Value) : Option Bool :=
  ((test? n.unwrap).bind (eval E (namesIn E n.unwrap props))).map Value.truthy

end Restyle.Script
