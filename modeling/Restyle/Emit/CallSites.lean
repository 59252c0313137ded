import Restyle.Emit.Wrapper
import Restyle.Module.Edit
import Restyle.Module.Usage
import Restyle.Plan.Facts

/-!
# Usages after the conversion

The elements of a module that render converted components are edited: a component that disappears is
replaced by its element, rules hand styles to other elements, and siblings are flagged.  What happens to
one element is collected first, so that its edits do not overlap.
-/

namespace Restyle.Emit

open Restyle.Component (ElementRule SiblingSelector)
open Restyle.Module (Edit Usage)
open Restyle.Tsx (Node)

/-! ## Targets of rules -/

/-- The elements that a rule gives its style to, at a usage of its component. -/
def ruleTargets (rule : ElementRule) (u : Usage) : List Node :=
  let children := Module.childElements u.element
  match rule.kind with
  | .directChildren => children
  | .directChildrenExceptFirst => children.drop 1
  | .directChildrenExceptLast => children.dropLast
  | .directChildrenFirst => children.take 1
  | .descendantComponent =>
    (u.element.children.flatMap Node.walk).filter fun e =>
      Module.isElement e && rule.target == some (Module.elementName e)

/-- The usages of one component. -/
def usagesNamed (usages : List Usage) (name : String) : List Usage :=
  usages.filter fun u => u.name == name

/-- The components that a rule of a component gives styles to. -/
def receiversOf (usages : List Usage) (component : String) (rule : ElementRule) : List String :=
  match rule.kind, rule.target.filter fun t => !t.isEmpty with
  | .descendantComponent, some target => [target]
  | _, _ =>
    (usagesNamed usages component).flatMap fun u => (ruleTargets rule u).map Module.elementName

/-- The components that are given styles by rules of others. -/
def styleReceivers (arena : Arena) (usages : List Usage) : List String :=
  Text.firstOccurrences (arena.values.flatMap fun c =>
    c.elementRules.flatMap (receiversOf usages c.name))

/-! ## Changes of elements -/

/-- What happens to an element. -/
structure Change where
  usage : Usage
  /-- The styles it is given. -/
  args : List String := []
  /-- The flags it is given. -/
  flags : List String := []

namespace Change

/-- Gives a style. -/
def addArg (expression : String) (c : Change) : Change :=
  if c.args.contains expression then c else { c with args := c.args ++ [expression] }

/-- Gives a flag, unless the element has an attribute of that name. -/
def addFlag (name : String) (c : Change) : Change :=
  if c.flags.contains name || (c.usage.attribute? name).isSome then c
  else { c with flags := c.flags ++ [name] }

end Change

/-- The changes so far, in the order in which their elements came up. -/
abbrev Changes := List Change

/-- Changes what happens to an element. -/
def Changes.modify (element : Node) (f : Change → Change) : Changes → Changes
  | [] => [f { usage := Usage.ofElement element }]
  | c :: rest =>
    if c.usage.element.start == element.start then f c :: rest
    else c :: Changes.modify element f rest

/-- What editing the usages draws on. -/
structure CallSites where
  plans : Table ComponentPlan
  usages : List Usage
  root : Node
  library : String := "stylex"
  stylesName : String := "styles"

namespace CallSites

/-- The plans with the usages of their components. -/
def planned (s : CallSites) : List (ComponentPlan × List Usage) :=
  s.plans.values.map fun p => (p, usagesNamed s.usages p.name)

/-- Gives the usages of components that disappear their styles. -/
def collectInline (s : CallSites) (changes : Changes) : Changes :=
  (s.planned.filter fun (p, _) => p.isInline).foldl
    (fun changes (p, usages) =>
      usages.foldl
        (fun changes u =>
          Changes.modify u.element (fun c => p.plainArgs.foldl (fun c a => c.addArg a) c) changes)
        changes)
    changes

/-- Gives the targets of rules their styles. -/
def collectRules (s : CallSites) (changes : Changes) : Changes :=
  s.planned.foldl
    (fun changes (p, usages) =>
      p.elementRules.foldl
        (fun changes rule =>
          (usages.flatMap (ruleTargets rule)).foldl
            (fun changes e =>
              Changes.modify e (Change.addArg (s.stylesName ++ "." ++ rule.styleKey)) changes)
            changes)
        changes)
    changes

/-- Whether a usage has a class. -/
def hasClass (u : Usage) (name : String) : Bool :=
  ((u.attribute? "className").bind (·.string?)).any fun value =>
    (Text.wordsOf value).contains name

/-- Whether a selector holds after the given usages of the same component. -/
def isAfter (s : SiblingSelector) (earlier : List Usage) (lastIsSame : Bool) : Bool :=
  match s.relation, s.className.filter fun n => !n.isEmpty with
  | .adjacent, _ => lastIsSame
  | .general, some name => earlier.any fun u => hasClass u name
  | .general, none => !earlier.isEmpty

/-- Flags the usages of a component among the elements of one parent. -/
def flagSiblings (p : ComponentPlan) :
    List Node → List Usage → Bool → Changes → Changes
  | [], _, _, changes => changes
  | e :: rest, earlier, lastIsSame, changes =>
    let u := Usage.ofElement e
    if u.name == p.name then
      let holding := p.component.siblingSelectors.filter fun s => isAfter s earlier lastIsSame
      let changes :=
        if holding.isEmpty then changes
        else
          Changes.modify e (fun c => holding.foldl (fun c s => c.addFlag s.propName) c) changes
      flagSiblings p rest (earlier ++ [u]) true changes
    else flagSiblings p rest earlier false changes

/-- The elements with a usage of a component right inside. -/
def parentsOf (s : CallSites) (name : String) : List Node :=
  s.root.walk.filter fun n =>
    (Module.childElements n).any fun e => Module.elementName e == name

/-- Flags siblings. -/
def collectSiblings (s : CallSites) (changes : Changes) : Changes :=
  (s.plans.values.filter fun p => !p.component.siblingSelectors.isEmpty).foldl
    (fun changes p =>
      (s.parentsOf p.name).foldl
        (fun changes parent => flagSiblings p (Module.childElements parent) [] false changes)
        changes)
    changes

/-- What happens to the elements of the module. -/
def changes (s : CallSites) : Changes :=
  s.collectSiblings (s.collectRules (s.collectInline []))

/-! ## Edits -/

/-- Where the node before a child of a node ends. -/
def endBefore (parent child : Node) : Nat :=
  match (parent.children.takeWhile fun c => !c.same child).getLast? with
  | some previous => previous.stop
  | none => child.start

/-- Whether an attribute goes away when a component is replaced by its element. -/
def isDropped (p : ComponentPlan) (name : String) : Bool :=
  Table.has p.staticAttrs name || (p.elementIsIntrinsic && Text.hasLead "$" name)

/-- The edits that replace a component by its element. -/
def inlineEdits (p : ComponentPlan) (u : Usage) : List Edit :=
  let names :=
    if p.element == u.name then []
    else u.nameNodes.map fun n => { start := n.start, stop := n.stop, text := p.element }
  let dropped := u.attributes.filter fun a => a.name.any (isDropped p)
  names ++ dropped.map fun a => Edit.deletion (endBefore u.opening a.node) a.node.stop

/-- The edits of one element. -/
def editsOf (s : CallSites) (c : Change) : List Edit :=
  let plan := (s.plans.get? c.usage.name).filter ComponentPlan.isInline
  let fixed := (plan.map (·.staticAttrs)).getD []
  let added :=
    c.flags ++ fixed.map (fun (key, value) => key ++ "=" ++ braced value) ++
      (if c.args.isEmpty then []
        else [braced ("..." ++ s.library ++ ".props(" ++ ", ".intercalate c.args ++ ")")])
  let insertion :=
    if added.isEmpty then []
    else [Edit.insertion c.usage.insertOffset (String.join (added.map (" " ++ ·))) 0]
  (plan.map fun p => inlineEdits p c.usage).getD [] ++ insertion

/-- The edits of all elements. -/
def edits (s : CallSites) : List Edit :=
  s.changes.flatMap s.editsOf

/-- Whether the edited elements refer to the library. -/
def needsLibrary (s : CallSites) : Bool :=
  s.changes.any fun c => !c.args.isEmpty

end CallSites

end Restyle.Emit
