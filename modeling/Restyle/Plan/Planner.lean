import Restyle.Plan.Attribute
import Restyle.Plan.Basic
import Restyle.Plan.Facts
import Restyle.Plan.Summary
import Restyle.Trace

/-!
# Planning

Every component of a module gets a plan.  What depends on props at run time needs a function component;
a component that is only a styled element disappears, unless its name is needed elsewhere.
-/

namespace Restyle.Plan

/-- What planning draws on. -/
structure Basis where
  facts : UsageFacts := {}
  /-- How other modules use the components, if that is known. -/
  summaries : Option Summaries := none
  path : String := ""
  stylesName : String := "styles"
  library : String := "stylex"

/-- How other modules use a component. -/
def Basis.summary (b : Basis) (name : String) : Option UsageSummary :=
  b.summaries.bind fun s => s.lookup b.path name

/-! ## Rendering as something else -/

/-- The component of the module that a component is based on. -/
def localBase? (arena : Arena) (c : Component) : Option Component :=
  if c.baseIsIntrinsic then none else arena.get? c.base

/-- The name of the base of a component, if both are in the module. -/
def baseName? (arena : Arena) (name : String) : Option String :=
  (arena.get? name).bind fun c =>
    if !c.baseIsIntrinsic && arena.has c.base then some c.base else none

/-- The components that are based on one, and its own base. -/
def neighbours (arena : Arena) (name : String) : List String :=
  (arena.names.filter fun other => baseName? arena other == some name) ++ (baseName? arena name).toList

/-- A search: the names that have been found, and those of them that have not been looked at yet. -/
structure Search where
  found : List String
  pending : List String

namespace Search

/-- Comes across a name: one that has not been found yet is to be looked at. -/
def meet (s : Search) (name : String) : Search :=
  if s.found.contains name then s
  else { found := name :: s.found, pending := name :: s.pending }

/-- Looks at a name, with others still pending. -/
def look (arena : Arena) (s : Search) (name : String) (others : List String) : Search :=
  (neighbours arena name).foldl meet { s with pending := others }

/-- Looks at what is pending, at most at a number of names. -/
def run (arena : Arena) : Nat → Search → Search
  | 0, s => s
  | n + 1, s =>
    match s.pending with
    | [] => s
    | name :: others => run arena n (s.look arena name others)

/-- The search from given names, as far as they are in the module. -/
def start (arena : Arena) (seeds : List String) : Search :=
  (seeds.filter arena.has).foldl meet { found := [], pending := [] }

end Search

/-- The components that are linked to given ones by chains of bases; each is looked at once. -/
def spread (arena : Arena) (seeds : List String) : List String :=
  ((Search.start arena seeds).run arena arena.length).found

/-- Whether the styles of a component depend on its props. -/
def needsWrapper (c : Component) : Bool :=
  !c.attributeSelectors.isEmpty || !c.siblingSelectors.isEmpty || !c.heldBack.isEmpty ||
    c.hasSpecificityHack || c.supportsAs || !c.dynamicEntries.isEmpty || !c.inlineStyles.isEmpty ||
    !c.variants.isEmpty

/-- Settles for all components whether they support `as` and whether they need a wrapper. -/
def settle (b : Basis) (arena : Arena) : Arena :=
  let isSeed (c : Component) : Bool :=
    b.facts.asUsed.contains c.name || (b.summary c.name).any (·.rendersAs)
  let supported := spread arena ((arena.values.filter isSeed).map (·.name))
  arena.map fun (name, c) =>
    let c := { c with supportsAs := supported.contains c.name }
    (name, { c with needsWrapper := needsWrapper c })

/-! ## The plan of a component -/

/-- Where a component ends up. -/
def renderMode (b : Basis) (c : Component) : RenderMode :=
  let usedElsewhere := (b.summary c.name).any fun s => s.styles || s.rendersAs
  if c.needsWrapper || c.isExported || usedElsewhere || b.facts.externalStyling.contains c.name ||
      b.facts.valueRefs.contains c.name then .component
  else .inline

/-- Whether styles from outside reach a component. -/
def acceptsStyles (b : Basis) (c : Component) : Bool :=
  c.needsWrapper || b.facts.externalStyling.contains c.name ||
    b.facts.styleReceivers.contains c.name || (b.summary c.name).any (·.styles)

/-- The styles that a component has under all circumstances. -/
def ownArgs (b : Basis) (c : Component) : List StyleArg :=
  c.mixinRefs.map (fun ref => { expression := ref }) ++
    (if c.hasBaseEntry then [{ expression := b.stylesName ++ "." ++ c.styleKey }] else []) ++
    (if c.needsDefaultMarker then [{ expression := b.library ++ ".defaultMarker()" }] else [])

/-- An element with what the components on the way to it bring along. -/
structure Resolved where
  /-- The component at the end of the way. -/
  last : Component
  inherited : List StyleArg := []
  attrs : Table String
  rules : List Component.ElementRule

/-- Follows the bases of a component that need no wrapper, at most a number of steps. -/
def follow (b : Basis) (arena : Arena) : Nat → List String → Resolved → Resolved
  | 0, _, r => r
  | n + 1, seen, r =>
    match localBase? arena r.last with
    | none => r
    | some base =>
      if seen.contains base.name || base.needsWrapper then r
      else
        follow b arena n (base.name :: seen)
          { last := base
            inherited := ownArgs b base ++ r.inherited
            attrs := Table.ofList (base.staticAttrs ++ r.attrs)
            rules := base.elementRules ++ r.rules }

/-- The element of a component: the end of its way, or the one that a fixed `as` names. -/
def elementOf (r : Resolved) : String × Bool × Table String :=
  match ((r.attrs.get? "as").bind fixedText?).filter fun tag => !tag.isEmpty with
  | some tag => (tag, Text.startsLower tag, r.attrs.erase "as")
  | none => (r.last.base, r.last.baseIsIntrinsic, r.attrs)

/-- The props with dollar signs that a component and its bases read. -/
def chainProps (arena : Arena) : Nat → List String → Component → List String
  | 0, _, _ => []
  | n + 1, seen, c =>
    if seen.contains c.name then []
    else
      c.transientProps ++
        match localBase? arena c with
        | some base => chainProps arena n (c.name :: seen) base
        | none => []

/-- The style that an attribute selector gives; `none` when a fixed value fails its test. -/
def attributeArg? (b : Basis) (attrs : Table String) (s : Component.AttributeSelector) :
    Option StyleArg :=
  let expression := b.stylesName ++ "." ++ s.styleKey
  match (attrs.get? s.attr).bind fixedText? with
  | some value => if attributeMatches s value then some { expression := expression } else none
  | none => some { expression, guard := some (attributeGuard s) }

/-- The first entry of every style function. -/
def firstByKey (entries : List Component.DynamicEntry) : List Component.DynamicEntry :=
  entries.foldl (fun kept e => if kept.any fun k => k.key == e.key then kept else kept ++ [e]) []

/-- The call of a style function. -/
def dynamicArg (b : Basis) (e : Component.DynamicEntry) : StyleArg :=
  { expression := b.stylesName ++ "." ++ e.key ++ "(" ++ e.propName ++ ")"
    guard := if e.fallback.isNull then some (e.propName ++ " != null") else none }

/-- The plan of a component; what depends on the others has been settled. -/
def planComponent (b : Basis) (arena : Arena) (c : Component) : ComponentPlan :=
  let start : Resolved := { last := c, attrs := c.staticAttrs, rules := c.elementRules }
  let resolved := follow b arena (arena.length + 1) [c.name] start
  let (element, elementIsIntrinsic, staticAttrs) := elementOf resolved
  let siblings := c.siblingSelectors.map fun s =>
    { expression := b.stylesName ++ "." ++ s.styleKey, guard := some s.propName }
  let variants := (c.variants.filter fun v => !v.styles.isEmpty).map fun v =>
    { expression := b.stylesName ++ "." ++ v.name, guard := some v.guard }
  let dollars :=
    if elementIsIntrinsic then
      (b.facts.transientProps.get? c.name).getD [] ++ chainProps arena (arena.length + 1) [] c
    else []
  let taken :=
    c.siblingSelectors.map (·.propName) ++ c.propDependencies ++ c.heldBack ++ dollars
  let base := if elementIsIntrinsic then none else arena.get? element
  { component := c
    mode := renderMode b c
    element, elementIsIntrinsic, staticAttrs
    styleArgs :=
      resolved.inherited ++ ownArgs b c ++
        c.attributeSelectors.filterMap (attributeArg? b staticAttrs) ++ siblings ++ variants ++
        (firstByKey c.dynamicEntries).map (dynamicArg b)
    takenProps := Text.firstOccurrences (taken.filter fun p => !p.isEmpty)
    elementRules := resolved.rules
    acceptsStyles := acceptsStyles b c
    forwardsAs := c.supportsAs && base.any (·.supportsAs) }

/-- The plans of all components of a module. -/
def planAll (b : Basis) (arena : Arena) : Table ComponentPlan :=
  let arena := settle b arena
  arena.map fun (name, c) => (name, planComponent b arena c)

/-- The outcome of planning a component, for the trace. -/
def outcome (p : ComponentPlan) : String :=
  if p.component.needsWrapper then "wrapper" else p.mode.text

/-- Notes plans in a trace. -/
def notePlans (plans : Table ComponentPlan) (t : Trace) : Trace :=
  plans.foldl (fun t (name, p) => t.inspection name (outcome p) ("<" ++ p.element ++ ">")) t

end Restyle.Plan
