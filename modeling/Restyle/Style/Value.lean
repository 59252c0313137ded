import Restyle.Decimal.Double
import Restyle.Text.Quoted

/-!
# Style values

A style object is an ordered list of entries.  Its keys are property tokens, pseudo and at-rule keys,
raw selectors that still have to be lowered, or computed keys; its values are literals, expressions
that are emitted as they stand, lists, and objects again.
-/

namespace Restyle.Style

/-- A key of a style object: a plain name, or an expression written in brackets. -/
inductive Key where
  | name (text : String)
  | computed (code : String)
  deriving DecidableEq, Repr, Inhabited

namespace Key

/-- The text of a key; a computed key keeps its brackets. -/
def text : Key → String
  | .name s => s
  | .computed code => "[" ++ code ++ "]"

/-- The plain name of a key. -/
def name? : Key → Option String
  | .name s => some s
  | .computed _ => none

/-- The key of the value that holds when no condition does. -/
def default : Key := .name "default"

/-- `:hover` and its like, but not `::before`. -/
def isPseudoClass : Key → Bool
  | .name s => Text.hasLead ":" s && !Text.hasLead "::" s
  | .computed _ => false

/-- `::before` and its like. -/
def isPseudoElement : Key → Bool
  | .name s => Text.hasLead "::" s
  | .computed _ => false

/-- Whether a selector is a media, supports or container at-rule. -/
def isConditionAtRuleText (s : String) : Bool :=
  Text.hasLead "@media" s || Text.hasLead "@supports" s || Text.hasLead "@container" s

/-- An at-rule under which a property may have a value of its own. -/
def isConditionAtRule : Key → Bool
  | .name s => isConditionAtRuleText s
  | .computed _ => false

/-- A key that may stand in the conditional map of a property. -/
def isCondition (k : Key) : Bool :=
  match k with
  | .computed _ => true
  | .name s => s == "default" || k.isPseudoClass || k.isConditionAtRule

/-- The condition that an ancestor with the default marker is in a pseudo state. -/
def ancestor (pseudo : String) : Key :=
  .computed ("stylex.when.ancestor(" ++ Text.quoteAscii pseudo ++ ")")

/-- The condition that an earlier sibling with the default marker is in a pseudo state. -/
def siblingBefore (pseudo : String) : Key :=
  .computed ("stylex.when.siblingBefore(" ++ Text.quoteAscii pseudo ++ ")")

end Key

/-- A style value. -/
inductive Value where
  | null
  | bool (b : Bool)
  | int (n : Int)
  | float (x : Double)
  | text (s : String)
  | js (code : String)
  | block (css : String)
  | list (items : List Value)
  | obj (entries : List (Key × Value))
  deriving Inhabited, Repr

/-- The entries of a style object, in order and with distinct keys. -/
abbrev Object := List (Key × Value)

namespace Object

/-- The value of a key. -/
def get? : Object → Key → Option Value
  | [], _ => none
  | (k, v) :: rest, key => if k = key then some v else get? rest key

/-- Whether a key is present. -/
def has (o : Object) (key : Key) : Bool :=
  (o.get? key).isSome

/-- Sets the value of a key: a present key keeps its place, a new one goes to the end. -/
def set : Object → Key → Value → Object
  | [], key, value => [(key, value)]
  | (k, v) :: rest, key, value =>
    if k = key then (k, value) :: rest else (k, v) :: set rest key value

/-- Removes a key. -/
def erase : Object → Key → Object
  | [], _ => []
  | (k, v) :: rest, key => if k = key then rest else (k, v) :: erase rest key

/-- The keys in order. -/
def keys (o : Object) : List Key :=
  o.map (·.1)

/-- Whether an object is the conditional map of a property: only condition keys, `default` among them. -/
def isConditional (o : Object) : Bool :=
  o.all (fun (k, _) => k.isCondition) && o.has Key.default

end Object

namespace Value

/-- The entries of a value that is an object. -/
def entries? : Value → Option Object
  | .obj o => some o
  | _ => none

/-- Whether a value is an object. -/
def isObject : Value → Bool
  | .obj _ => true
  | _ => false

/-- Whether a value is absent. -/
def isNull : Value → Bool
  | .null => true
  | _ => false

/-- Whether a value is the conditional map of a property. -/
def isConditional : Value → Bool
  | .obj o => Object.isConditional o
  | _ => false

/-- The text of a value that is one. -/
def text? : Value → Option String
  | .text s => some s
  | _ => none

end Value

namespace Object

@[simp] theorem get?_nil (key : Key) : get? [] key = none := rfl

theorem get?_cons (k : Key) (v : Value) (o : Object) (key : Key) :
    get? ((k, v) :: o) key = if k = key then some v else get? o key := rfl

/-- Reading the key just set gives the value set. -/
@[simp] theorem get?_set_self (o : Object) (key : Key) (value : Value) :
    (o.set key value).get? key = some value := by
  induction o with
  | nil => simp [set, get?]
  | cons entry o ih =>
      obtain ⟨k, v⟩ := entry
      by_cases h : k = key <;> simp [set, get?, h, ih]

/-- Setting a key leaves every other key alone. -/
theorem get?_set_of_ne (o : Object) {key other : Key} (value : Value) (h : key ≠ other) :
    (o.set key value).get? other = o.get? other := by
  induction o with
  | nil => simp [set, get?, h]
  | cons entry o ih =>
      obtain ⟨k, v⟩ := entry
      by_cases hk : k = key
      · subst hk
        simp [set, get?, h]
      · by_cases ho : k = other
        · subst ho
          simp [set, get?, hk]
        · simp [set, get?, hk, ho, ih]

/-- Setting a present key keeps the keys; setting a new one appends it. -/
theorem keys_set (o : Object) (key : Key) (value : Value) :
    (o.set key value).keys = if key ∈ o.keys then o.keys else o.keys ++ [key] := by
  induction o with
  | nil => simp [set, keys]
  | cons entry o ih =>
      obtain ⟨k, v⟩ := entry
      by_cases h : k = key
      · subst h
        simp [set, keys]
      · have h' : key ≠ k := fun e => h e.symm
        simp only [keys] at ih
        by_cases hm : key ∈ List.map (·.1) o <;> simp_all [set, keys]

end Object

end Restyle.Style
