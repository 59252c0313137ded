import Restyle.Proofs.References
import Restyle.Proofs.Transient

/-!
# Components that are handed styles

A rule of a component hands a style to other elements at the usages of the component, and a component that is
rendered by such an element has to merge the style in.  Which components are handed styles is found out before
planning, from the rules that components have themselves.  The styles are handed out after planning, and then a
component also carries out the rules of the bases that it takes over.  A rule that names its target is known
either way.  A rule for children, when it is inherited, reaches elements at usages that nobody has looked at,
and a component found there ignores the style unless it merges styles for another reason.
-/

namespace Restyle.Component

/-- Whether a rule names the component that it gives its style to. -/
def ElementRule.namesTarget (rule : ElementRule) : Bool :=
  rule.kind == .descendantComponent && rule.target.any fun t => !t.isEmpty

end Restyle.Component

namespace Restyle.Emit

open Restyle.Component (ElementRule)
open Restyle.Module (Usage)
open Restyle.Plan (Basis flattened lineage planAll planComponent settle)
open Restyle.Tsx (Node)

/-! ## What rules hand out -/

namespace CallSites

/-- The styles that rules give to elements, in the order in which they are given. -/
def gifts (s : CallSites) : List (Node × String) :=
  s.planned.flatMap fun (p, usages) =>
    p.elementRules.flatMap fun rule =>
      (usages.flatMap (ruleTargets rule)).map fun e => (e, s.stylesName ++ "." ++ rule.styleKey)

/-- Collecting the rules gives these styles one by one. -/
theorem collectRules_eq (s : CallSites) (changes : Changes) :
    s.collectRules changes =
      s.gifts.foldl (fun changes gift => Changes.modify gift.1 (Change.addArg gift.2) changes) changes := by
  unfold collectRules gifts
  simp only [List.foldl_flatMap, List.foldl_map]

theorem mem_gifts_iff {s : CallSites} {e : Node} :
    (∃ style, (e, style) ∈ s.gifts) ↔ ∃ p ∈ s.plans.values, ∃ rule ∈ p.elementRules,
      ∃ u ∈ usagesNamed s.usages p.name, e ∈ ruleTargets rule u := by
  constructor
  · rintro ⟨style, hmem⟩
    obtain ⟨_, hplanned, hmem⟩ := List.mem_flatMap.mp hmem
    obtain ⟨p, hp, rfl⟩ := List.mem_map.mp hplanned
    obtain ⟨rule, hrule, hmem⟩ := List.mem_flatMap.mp hmem
    obtain ⟨target, htarget, heq⟩ := List.mem_map.mp hmem
    cases heq
    obtain ⟨u, hu, htarget⟩ := List.mem_flatMap.mp htarget
    exact ⟨p, hp, rule, hrule, u, hu, htarget⟩
  · rintro ⟨p, hp, rule, hrule, u, hu, htarget⟩
    refine ⟨s.stylesName ++ "." ++ rule.styleKey, List.mem_flatMap.mpr ⟨_, List.mem_map_of_mem hp, ?_⟩⟩
    apply List.mem_flatMap.mpr
    refine ⟨rule, hrule, List.mem_map.mpr ⟨e, ?_, rfl⟩⟩
    exact List.mem_flatMap.mpr ⟨u, hu, htarget⟩

/-- Every component that stays one merges the styles that rules hand to its elements. -/
def Welcomes (s : CallSites) : Prop :=
  ∀ gift ∈ s.gifts, ∀ plan ∈ s.plans.get? (Module.elementName gift.1),
    plan.mode = .component → plan.acceptsStyles = true

instance (s : CallSites) : Decidable s.Welcomes := by
  unfold Welcomes
  infer_instance

end CallSites

/-! ## What is known about receivers -/

theorem mem_receiversOf_of_target {usages : List Usage} {component : String} {rule : ElementRule} {u : Usage}
    {e : Node} (hu : u ∈ usagesNamed usages component) (he : e ∈ ruleTargets rule u) :
    Module.elementName e ∈ receiversOf usages component rule := by
  unfold receiversOf
  split
  · next target hkind htarget =>
      obtain ⟨hnames, -⟩ := Option.filter_eq_some_iff.mp htarget
      unfold ruleTargets at he
      rw [hkind] at he
      obtain ⟨-, he⟩ := List.mem_filter.mp he
      have hname := (Bool.and_eq_true_iff.mp he).2
      rw [hnames, beq_iff_eq, Option.some.injEq] at hname
      exact List.mem_singleton.mpr hname.symm
  · exact List.mem_flatMap.mpr ⟨u, hu, List.mem_map_of_mem he⟩

/-- The target that a rule names is known whatever the usages are. -/
theorem mem_receiversOf_of_namesTarget {usages : List Usage} {rule : ElementRule} {u : Usage} {e : Node}
    (hnames : rule.namesTarget = true) (he : e ∈ ruleTargets rule u) (component : String) :
    Module.elementName e ∈ receiversOf usages component rule := by
  obtain ⟨hkind, htarget⟩ := Bool.and_eq_true_iff.mp hnames
  rw [beq_iff_eq] at hkind
  obtain ⟨target, htarget, hnonempty⟩ := (Option.any_eq_true _ _).mp htarget
  have hfilter : rule.target.filter (fun t => !t.isEmpty) = some target :=
    Option.filter_eq_some_iff.mpr ⟨htarget, hnonempty⟩
  unfold ruleTargets at he
  rw [hkind] at he
  obtain ⟨-, he⟩ := List.mem_filter.mp he
  have hname := (Bool.and_eq_true_iff.mp he).2
  rw [htarget, beq_iff_eq, Option.some.injEq] at hname
  unfold receiversOf
  rw [hkind, hfilter]
  exact List.mem_singleton.mpr hname.symm

theorem mem_styleReceivers {arena : Arena} {usages : List Usage} {c : Component} (hc : c ∈ arena.values)
    {rule : ElementRule} (hrule : rule ∈ c.elementRules) {name : String}
    (hname : name ∈ receiversOf usages c.name rule) : name ∈ styleReceivers arena usages := by
  apply Plan.mem_firstOccurrences.mpr
  exact List.mem_flatMap.mpr ⟨c, hc, List.mem_flatMap.mpr ⟨rule, hrule, hname⟩⟩

/-! ## Overlooked receivers -/

/-- A rule of a base without a target of its own reaches an element at a usage of a component over that base. -/
def ReachedOverBase (arena : Arena) (usages : List Usage) (e : Node) : Prop :=
  ∃ c ∈ arena.values, ∃ base ∈ flattened arena (arena.length + 1) [c.name] c,
    ∃ rule ∈ base.elementRules, rule.namesTarget = false ∧
      ∃ u ∈ usagesNamed usages c.name, e ∈ ruleTargets rule u

/-- A component that stays one for its name alone: nothing that planning knows hands it styles. -/
structure KeptByName (b : Basis) (arena : Arena) (usages : List Usage) (c : Component) : Prop where
  plain : c.needsWrapper = false
  unstyled : c.name ∉ b.facts.externalStyling
  unstyledElsewhere : (b.summary c.name).any (·.styles) = false
  unreceived : c.name ∉ styleReceivers arena usages
  kept : c.isExported = true ∨ c.name ∈ b.facts.valueRefs ∨ (b.summary c.name).any (·.rendersAs) = true

/-- A component that stays one ignores styles exactly if it is kept for its name alone. -/
theorem ignores_iff {b : Basis} {arena : Arena} {usages : List Usage}
    (hfacts : b.facts.styleReceivers = styleReceivers arena usages) (c : Component) :
    Plan.renderMode b c = .component ∧ Plan.acceptsStyles b c = false ↔ KeptByName b arena usages c := by
  have hsplit : (b.summary c.name).any (fun s => s.styles || s.rendersAs) =
      ((b.summary c.name).any (·.styles) || (b.summary c.name).any (·.rendersAs)) := by
    cases b.summary c.name <;> rfl
  unfold Plan.renderMode Plan.acceptsStyles
  dsimp only
  rw [hsplit, hfacts]
  simp only [Bool.or_eq_false_iff, List.contains_eq_mem, decide_eq_false_iff_not]
  constructor
  · rintro ⟨hmode, ⟨⟨hplain, hunstyled⟩, hunreceived⟩, helsewhere⟩
    refine ⟨hplain, hunstyled, helsewhere, hunreceived, ?_⟩
    by_contra hkept
    simp only [not_or, Bool.not_eq_true] at hkept
    simp [hplain, hunstyled, helsewhere, hkept.1, hkept.2.1, hkept.2.2] at hmode
  · intro h
    refine ⟨if_pos ?_, ⟨⟨h.plain, h.unstyled⟩, h.unreceived⟩, h.unstyledElsewhere⟩
    rcases h.kept with hkept | hkept | hkept <;> simp [hkept]

section

variable {b : Basis} {arena : Arena} {s : CallSites}

/-- A gift comes from a rule that its component has itself or from a base that the component takes over. -/
theorem exists_rule_of_gift (hplans : s.plans = planAll b arena) {gift : Node × String} (hgift : gift ∈ s.gifts) :
    Module.elementName gift.1 ∈ styleReceivers arena s.usages ∨
      ReachedOverBase (settle b arena) s.usages gift.1 := by
  obtain ⟨p, hp, rule, hrule, u, hu, he⟩ := CallSites.mem_gifts_iff.mp ⟨gift.2, hgift⟩
  rw [hplans] at hp
  obtain ⟨c, hc, rfl⟩ := Plan.mem_planAll hp
  rw [Plan.elementRules_planComponent] at hrule
  obtain ⟨owner, howner, howned⟩ := List.mem_flatMap.mp hrule
  clear hrule
  obtain ⟨original, horiginal, _, _, rfl⟩ := Plan.settle_frame (Plan.mem_lineage hc howner)
  by_cases hnames : rule.namesTarget = true
  · exact .inl (mem_styleReceivers horiginal howned (mem_receiversOf_of_namesTarget hnames he original.name))
  rcases List.mem_append.mp howner with hbase | hself
  · exact .inr ⟨c, hc, _, hbase, rule, howned, Bool.eq_false_iff.mpr hnames, u, hu, he⟩
  · cases List.mem_singleton.mp hself
    exact .inl (mem_styleReceivers horiginal howned (mem_receiversOf_of_target hu he))

theorem exists_gift_of_reached (hplans : s.plans = planAll b arena) {e : Node}
    (h : ReachedOverBase (settle b arena) s.usages e) : ∃ style, (e, style) ∈ s.gifts := by
  obtain ⟨c, hc, base, hbase, rule, hrule, -, u, hu, he⟩ := h
  obtain ⟨⟨name, _⟩, hentry, rfl⟩ := List.mem_map.mp hc
  rw [CallSites.mem_gifts_iff, hplans]
  refine ⟨planComponent b (settle b arena) _, ?_, rule, ?_, u, hu, he⟩
  · exact List.mem_map.mpr ⟨_, List.mem_map_of_mem hentry, rfl⟩
  · rw [Plan.elementRules_planComponent]
    exact List.mem_flatMap.mpr ⟨base, List.mem_append_left _ hbase, hrule⟩

/--
Rules hand out their styles one by one.  All components that stay merge the styles that they are handed, unless a
rule that a component has from a base reaches an element of a component that is kept for its name alone.
-/
theorem welcomes_iff (hnamed : Named arena) (hplans : s.plans = planAll b arena)
    (hfacts : b.facts.styleReceivers = styleReceivers arena s.usages) :
    (∀ changes, s.collectRules changes =
        s.gifts.foldl (fun changes gift => Changes.modify gift.1 (Change.addArg gift.2) changes)
          changes) ∧
      (s.Welcomes ↔ ¬ ∃ e c, ReachedOverBase (settle b arena) s.usages e ∧
        (settle b arena).get? (Module.elementName e) = some c ∧ KeptByName b arena s.usages c) := by
  have hplan : ∀ name, s.plans.get? name =
      ((settle b arena).get? name).map (planComponent b (settle b arena)) := by
    intro name
    rw [hplans, Plan.get?_planAll]
  refine ⟨CallSites.collectRules_eq s, ?_, ?_⟩
  · rintro hwelcomes ⟨e, c, hreached, hc, hkept⟩
    obtain ⟨style, hgift⟩ := exists_gift_of_reached hplans hreached
    obtain ⟨hmode, hignores⟩ := (ignores_iff hfacts c).mpr hkept
    have haccepts : Plan.acceptsStyles b c = true :=
      hwelcomes _ hgift _ (by rw [hplan, hc]; rfl) hmode
    cases hignores.symm.trans haccepts
  · rintro hnone gift hgift plan hget hmode
    rw [hplan] at hget
    obtain ⟨c, hc, rfl⟩ := Option.map_eq_some_iff.mp hget
    by_contra haccepts
    have hkept := (ignores_iff hfacts c).mp ⟨hmode, Bool.eq_false_iff.mpr haccepts⟩
    have hname : c.name = Module.elementName gift.1 := Plan.named_settle b hnamed _ _ hc
    rcases exists_rule_of_gift hplans hgift with hreceived | hreached
    · exact hkept.unreceived (hname ▸ hreceived)
    · exact hnone ⟨gift.1, c, hreached, hc, hkept⟩

end

/-! ## Two arenas -/

/-- A box with an item in it. -/
def boxModule : Module :=
  Module.read "<Box><Item/></Box>;" "f.tsx"

/-- A rule for all children. -/
def childRule : ElementRule :=
  { kind := .directChildren, styleKey := "child" }

/-- An item that is exported. -/
def exportedItem : Component :=
  { name := "Item", styleKey := "item", base := "span", isExported := true }

/-- The item, and a box with a rule for its children. -/
def boxArena : Arena :=
  [("Box", { name := "Box", styleKey := "box", base := "div", elementRules := [childRule] }), ("Item", exportedItem)]

/-- The item, and a box that has the same rule from its base. -/
def basedArena : Arena :=
  [("Base", { name := "Base", styleKey := "base", base := "div", elementRules := [childRule] }),
    ("Box", { name := "Box", styleKey := "box", base := "Base", baseIsIntrinsic := false }), ("Item", exportedItem)]

/-- What the usages in the module reveal about an arena. -/
def boxBasis (arena : Arena) : Basis :=
  let usages := Module.usagesOf boxModule arena.names
  { facts := { Plan.UsageFacts.ofUsages usages [] with styleReceivers := styleReceivers arena usages } }

/-- The usages in the module with the plans of an arena. -/
def boxSites (arena : Arena) : CallSites :=
  { plans := planAll (boxBasis arena) arena, usages := Module.usagesOf boxModule arena.names, root := boxModule.root }

theorem welcomes_boxArena : Named boxArena ∧
    (boxSites boxArena).plans = planAll (boxBasis boxArena) boxArena ∧
    (boxBasis boxArena).facts.styleReceivers = styleReceivers boxArena (boxSites boxArena).usages ∧
    (boxSites boxArena).gifts.map (·.2) = ["styles.child"] ∧ (boxSites boxArena).Welcomes ∧
    ¬ ∃ e c, ReachedOverBase (settle (boxBasis boxArena) boxArena) (boxSites boxArena).usages e ∧
      (settle (boxBasis boxArena) boxArena).get? (Module.elementName e) = some c ∧
      KeptByName (boxBasis boxArena) boxArena (boxSites boxArena).usages c := by
  have hnamed : Named boxArena := by
    intro name c hc
    have hmem := Table.mem_of_get? hc
    simp only [boxArena, List.mem_cons, List.not_mem_nil, Prod.mk.injEq, or_false] at hmem
    rcases hmem with ⟨rfl, rfl⟩ | ⟨rfl, rfl⟩ <;> rfl
  have hgifts : (boxSites boxArena).gifts.map (·.2) = ["styles.child"] := by
    decide +kernel
  have hwelcomes : (boxSites boxArena).Welcomes := by
    decide +kernel
  exact ⟨hnamed, rfl, rfl, hgifts, hwelcomes, (welcomes_iff hnamed rfl rfl).2.mp hwelcomes⟩

/-- The item is handed the style of the base at a usage of the box, and ignores it. -/
theorem not_welcomes_basedArena : Named basedArena ∧
    (boxSites basedArena).plans = planAll (boxBasis basedArena) basedArena ∧
    (boxBasis basedArena).facts.styleReceivers = styleReceivers basedArena (boxSites basedArena).usages ∧
    ¬ (boxSites basedArena).Welcomes := by
  refine ⟨fun name c hc => ?_, rfl, rfl, by decide +kernel⟩
  have hmem := Table.mem_of_get? hc
  simp only [basedArena, List.mem_cons, List.not_mem_nil, Prod.mk.injEq, or_false] at hmem
  rcases hmem with ⟨rfl, rfl⟩ | ⟨rfl, rfl⟩ | ⟨rfl, rfl⟩ <;> rfl

end Restyle.Emit
