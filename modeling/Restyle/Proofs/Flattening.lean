import Restyle.Proofs.References
import Restyle.Proofs.Transient

/-!
# Bases that are taken over

A component over a base without a wrapper takes over what the base is rendered with: its element, its styles,
its attributes and its rules for other elements.  Following the bases of the component goes the same way as
following those of its base, with the contribution of the component on top all along; so the plan of a
component is that of its base with the component's own part added.
-/

namespace Restyle.Plan

/-! ## The own part of a plan -/

/-- The arguments that a component adds to those of its bases; fixed attributes decide some of them. -/
def ownPart (b : Basis) (attrs : Table String) (c : Component) : List StyleArg :=
  ownArgs b c ++ c.attributeSelectors.filterMap (attributeArg? b attrs) ++
    c.siblingSelectors.map (fun s =>
      { expression := b.stylesName ++ "." ++ s.styleKey, guard := some s.propName }) ++
    (c.variants.filter fun v => !v.styles.isEmpty).map (fun v =>
      { expression := b.stylesName ++ "." ++ v.name, guard := some v.guard }) ++
    (firstByKey c.dynamicEntries).map (dynamicArg b)

/-- The end of the way over the bases that a component takes over. -/
def resolved (b : Basis) (arena : Arena) (c : Component) : Resolved :=
  follow b arena (arena.length + 1) [c.name] { last := c, attrs := c.staticAttrs, rules := c.elementRules }

section Parts

variable (b : Basis) (arena : Arena) (c : Component)

theorem styleArgs_eq : (planComponent b arena c).styleArgs =
    (resolved b arena c).inherited ++ ownPart b (planComponent b arena c).staticAttrs c := by
  unfold planComponent ownPart resolved
  simp only [List.append_assoc]

/-- A component without a wrapper adds no argument under a guard. -/
theorem ownPart_of_plain (attrs : Table String) (h : needsWrapper c = false) :
    ownPart b attrs c = ownArgs b c ∧ c.inlineStyles = [] := by
  unfold needsWrapper at h
  simp only [Bool.or_eq_false_iff, Bool.not_eq_false', List.isEmpty_iff] at h
  obtain ⟨⟨⟨⟨⟨⟨⟨hattributes, hsiblings⟩, -⟩, -⟩, -⟩, hdynamic⟩, hinline⟩, hvariants⟩ := h
  refine ⟨?_, hinline⟩
  unfold ownPart
  rw [hattributes, hsiblings, hvariants, hdynamic]
  simp [firstByKey]

theorem guard_of_mem_ownArgs {a : StyleArg} (h : a ∈ ownArgs b c) : a.guard = none := by
  unfold ownArgs at h
  simp only [List.mem_append, List.mem_map] at h
  rcases h with (⟨ref, -, rfl⟩ | h) | h
  · rfl
  all_goals
    split at h
    · rw [List.mem_singleton.mp h]
    · cases h

theorem guard_of_mem_inherited {a : StyleArg} (h : a ∈ (resolved b arena c).inherited) : a.guard = none := by
  unfold resolved at h
  rw [(follow_eq b arena _ _ _).1, List.append_nil] at h
  obtain ⟨base, -, h⟩ := List.mem_flatMap.mp h
  exact guard_of_mem_ownArgs b base h

end Parts

/-! ## The way over the bases -/

section Way

variable {b : Basis} {arena : Arena}

/-- There are no more bases than components, so that a longer way is not needed. -/
theorem follow_succ (hnamed : Named arena) {n : Nat} {seen : List String} (hnodup : seen.Nodup)
    (hknown : seen ⊆ arena.names) (hfuel : arena.length < n + seen.length) (r : Resolved) :
    follow b arena (n + 1) seen r = follow b arena n seen r := by
  induction n generalizing seen r with
  | zero =>
      have hle := (hnodup.subperm hknown).length_le
      rw [Table.names, List.length_map] at hle
      omega
  | succ n ih =>
      rw [follow, follow]
      cases hbase : localBase? arena r.last with
      | none => rfl
      | some base =>
          dsimp only
          split
          · rfl
          · next hfresh =>
              rw [Bool.or_eq_true, not_or, List.contains_iff_mem] at hfresh
              have hstored : Stored arena base := BasedOn.stored hbase hnamed
              refine ih (List.nodup_cons.mpr ⟨hfresh.1, hnodup⟩)
                (List.cons_subset.mpr ⟨Table.mem_names_of_get? hstored, hknown⟩) ?_ _
              rw [List.length_cons]
              omega

/-- One way brings along the same as another one, with a component on top. -/
structure Tops (c : Component) (args : List StyleArg) (whole part : Resolved) : Prop where
  last : whole.last = part.last
  inherited : whole.inherited = part.inherited ++ args
  rules : whole.rules = part.rules ++ c.elementRules
  attrs : ∀ name, whole.attrs.get? name = (c.staticAttrs.get? name).or (part.attrs.get? name)
  distinct : whole.attrs.names.Nodup ∧ part.attrs.names.Nodup

theorem Tops.step {c base : Component} {args : List StyleArg} {whole part : Resolved}
    (h : Tops c args whole part) (hbase : base.staticAttrs.names.Nodup) :
    Tops c args
      { last := base, inherited := ownArgs b base ++ whole.inherited
        attrs := Table.ofList (base.staticAttrs ++ whole.attrs), rules := base.elementRules ++ whole.rules }
      { last := base, inherited := ownArgs b base ++ part.inherited
        attrs := Table.ofList (base.staticAttrs ++ part.attrs), rules := base.elementRules ++ part.rules } where
  last := rfl
  inherited := by rw [h.inherited, List.append_assoc]
  rules := by rw [h.rules, List.append_assoc]
  attrs name := by
    rw [Table.get?_ofList_append hbase h.distinct.1, Table.get?_ofList_append hbase h.distinct.2, h.attrs,
      Option.or_assoc]
  distinct := ⟨Table.nodup_names_ofList _, Table.nodup_names_ofList _⟩

/-- Two ways go on alike as long as they know the same of the names ahead. -/
theorem Tops.follow {c : Component} {args : List StyleArg} {n : Nat} {seen seen' : List String}
    {whole part : Resolved} (h : Tops c args whole part)
    (hattrs : ∀ d, Stored arena d → d.staticAttrs.names.Nodup) (hnamed : Named arena)
    (hseen : ∀ d, Relation.TransGen (BasedOn arena) part.last d → (d.name ∈ seen ↔ d.name ∈ seen')) :
    Tops c args (follow b arena n seen whole) (follow b arena n seen' part) := by
  induction n generalizing seen seen' whole part with
  | zero => exact h
  | succ n ih =>
      rw [Plan.follow, Plan.follow, h.last]
      cases hbase : localBase? arena part.last with
      | none => exact h
      | some base =>
          dsimp only
          have hbased : BasedOn arena part.last base := hbase
          have hsame : seen.contains base.name = seen'.contains base.name := by
            rw [Bool.eq_iff_iff, List.contains_iff_mem, List.contains_iff_mem]
            exact hseen base (.single hbased)
          rw [hsame]
          split
          · exact h
          · refine ih (h.step (hattrs base (hbased.stored hnamed))) fun d hd => ?_
            rw [List.mem_cons, List.mem_cons, hseen d (.head hbased hd)]

/-- The way of a component is that of its base, with the component on top. -/
theorem tops_resolved (hnamed : Named arena) (hattrs : ∀ d, Stored arena d → d.staticAttrs.names.Nodup)
    {c base : Component} (hc : Stored arena c) (hbase : BasedOn arena c base)
    (hplain : base.needsWrapper = false) (hacyclic : ¬ Relation.TransGen (BasedOn arena) c c) :
    Tops c (ownArgs b base) (resolved b arena c) (resolved b arena base) := by
  have hstored := hbase.stored hnamed
  have hne : base.name ≠ c.name := by
    intro heq
    cases hstored.eq hc heq
    exact hacyclic (.single hbase)
  have hfirst : resolved b arena c = follow b arena arena.length [base.name, c.name]
      { last := base, inherited := ownArgs b base ++ []
        attrs := Table.ofList (base.staticAttrs ++ c.staticAttrs), rules := base.elementRules ++ c.elementRules } := by
    unfold resolved
    rw [follow, show localBase? arena c = some base from hbase]
    simp [hne, hplain]
  have hsecond : resolved b arena base = follow b arena arena.length [base.name]
      { last := base, attrs := base.staticAttrs, rules := base.elementRules } :=
    follow_succ hnamed (List.pairwise_singleton _ _)
      (List.cons_subset.mpr ⟨Table.mem_names_of_get? hstored, List.nil_subset _⟩) (by simp) _
  rw [hfirst, hsecond]
  refine Tops.follow ⟨rfl, ?_, rfl, fun name => ?_, Table.nodup_names_ofList _, hattrs base hstored⟩ hattrs hnamed ?_
  · simp
  · exact Table.get?_ofList_append (hattrs base hstored) (hattrs c hc) name
  · intro d hd
    have hfar : d.name ≠ c.name := by
      intro heq
      have hdstored : Stored arena d := by
        obtain ⟨_, -, hlast⟩ := Relation.TransGen.tail'_iff.mp hd
        exact hlast.stored hnamed
      cases hdstored.eq hc heq
      exact hacyclic (.head hbase hd)
    simp [hfar]

/-- What is rendered on top of a base is the element of the base, unless the component has an `as` of its own. -/
theorem Tops.elementOf {c : Component} {args : List StyleArg} {whole part : Resolved} (h : Tops c args whole part) :
    (∀ name, name ≠ "as" → (Plan.elementOf whole).2.2.get? name =
      (c.staticAttrs.get? name).or ((Plan.elementOf part).2.2.get? name)) ∧
    (c.staticAttrs.get? "as" = none →
      (Plan.elementOf whole).1 = (Plan.elementOf part).1 ∧ (Plan.elementOf whole).2.1 = (Plan.elementOf part).2.1) := by
  have hattrs : ∀ r : Resolved, ∀ name, name ≠ "as" → (Plan.elementOf r).2.2.get? name = r.attrs.get? name := by
    intro r name hname
    unfold Plan.elementOf
    split
    · exact Table.get?_erase_of_ne _ (Ne.symm hname)
    · rfl
  refine ⟨fun name hname => ?_, fun hown => ?_⟩
  · rw [hattrs _ _ hname, hattrs _ _ hname, h.attrs]
  · have has : whole.attrs.get? "as" = part.attrs.get? "as" := by
      rw [h.attrs, hown]
      rfl
    unfold Plan.elementOf
    rw [has, h.last]
    split <;> exact ⟨rfl, rfl⟩

end Way

/-! ## Plans on top of plans -/

theorem needsWrapper_of_mem_settle {b : Basis} {arena : Arena} {c : Component} (h : c ∈ (settle b arena).values) :
    c.needsWrapper = needsWrapper c := by
  obtain ⟨⟨name, c'⟩, hentry, rfl⟩ := List.mem_map.mp h
  obtain ⟨⟨name', original⟩, -, heq⟩ := List.mem_map.mp hentry
  cases heq
  rfl

theorem mem_values_of_stored {arena : Arena} {c : Component} (h : Stored arena c) : c ∈ arena.values :=
  List.mem_map_of_mem (Table.mem_of_get? h)

/-- A component that disappears into its element has all its arguments without a guard. -/
theorem plain_of_inline {b : Basis} {arena : Arena} {p : ComponentPlan} (hp : p ∈ (planAll b arena).values)
    (hmode : p.mode = .inline) :
    (∀ a ∈ p.styleArgs, a.guard = none) ∧ p.component.inlineStyles = [] := by
  obtain ⟨c, hc, rfl⟩ := mem_planAll hp
  have hplain : needsWrapper c = false := by
    rw [← needsWrapper_of_mem_settle hc]
    by_contra hwrapper
    have hcomponent : renderMode b c = .component := if_pos (by simp [hwrapper])
    cases hmode.symm.trans hcomponent
  obtain ⟨hown, hinline⟩ := ownPart_of_plain b c (planComponent b (settle b arena) c).staticAttrs hplain
  refine ⟨fun a ha => ?_, hinline⟩
  rw [styleArgs_eq, hown] at ha
  rcases List.mem_append.mp ha with ha | ha
  · exact guard_of_mem_inherited b _ c ha
  · exact guard_of_mem_ownArgs b c ha

/--
Over a base without a wrapper a component adds its own arguments, rules and attributes to those of the plan of
the base and renders the same element, unless it has an `as` of its own.  A component that disappears into its
element has neither guards nor inline styles, so that no argument is left out at its usages.
-/
theorem plans_compose (b : Basis) {arena : Arena} (hnamed : Named arena)
    (hattrs : arena.All fun c => c.staticAttrs.names.Nodup) :
    (∀ name p base, (planAll b arena).get? name = some p → p.component.baseIsIntrinsic = false →
        ¬ Relation.TransGen (BasedOn (settle b arena)) p.component p.component →
        (planAll b arena).get? p.component.base = some base → base.component.needsWrapper = false →
      p.styleArgs = base.styleArgs ++ ownPart b p.staticAttrs p.component ∧
        p.elementRules = base.elementRules ++ p.component.elementRules ∧
        (∀ attr, attr ≠ "as" → p.staticAttrs.get? attr =
          (p.component.staticAttrs.get? attr).or (base.staticAttrs.get? attr)) ∧
        (p.component.staticAttrs.get? "as" = none →
          p.element = base.element ∧ p.elementIsIntrinsic = base.elementIsIntrinsic)) ∧
      ∀ p ∈ (planAll b arena).values, p.mode = .inline →
        (∀ a ∈ p.styleArgs, a.guard = none) ∧ p.component.inlineStyles = [] ∧
          p.plainArgs = p.styleArgs.map (·.expression) := by
  have hsettled := named_settle b hnamed
  have hdistinct : ∀ d, Stored (settle b arena) d → d.staticAttrs.names.Nodup := by
    intro d hd
    obtain ⟨original, hmem, _, _, rfl⟩ := settle_frame (mem_values_of_stored hd)
    obtain ⟨entry, hentry, rfl⟩ := List.mem_map.mp hmem
    exact hattrs entry hentry
  refine ⟨fun name p base hp hcomponent hacyclic hbase hplain => ?_, fun p hp hmode => ?_⟩
  · rw [get?_planAll] at hp hbase
    obtain ⟨c, hc, rfl⟩ := Option.map_eq_some_iff.mp hp
    obtain ⟨d, hd, rfl⟩ := Option.map_eq_some_iff.mp hbase
    have hbased : BasedOn (settle b arena) c d := by
      unfold BasedOn localBase?
      rw [show c.baseIsIntrinsic = false from hcomponent]
      exact hd
    have htops := tops_resolved (b := b) hsettled hdistinct (stored_of_named hsettled hc) hbased hplain hacyclic
    have hown : ownPart b (planComponent b (settle b arena) d).staticAttrs d = ownArgs b d :=
      (ownPart_of_plain b d _
        ((needsWrapper_of_mem_settle (mem_values_of_stored (hbased.stored hsettled))).symm.trans hplain)).1
    refine ⟨?_, ?_, htops.elementOf⟩
    · rw [styleArgs_eq, styleArgs_eq b _ d, hown, htops.inherited]
      rfl
    · exact htops.rules
  · obtain ⟨hguards, hinline⟩ := plain_of_inline hp hmode
    refine ⟨hguards, hinline, ?_⟩
    unfold ComponentPlan.plainArgs
    rw [List.filter_eq_self.mpr fun a ha => by rw [hguards a ha]; rfl]

/-- A link, a link of a menu over it, and a link of the menu with styles from elsewhere. -/
def menuArena : Arena :=
  [("Link", { name := "Link", styleKey := "link", base := "a", needsDefaultMarker := true
              staticAttrs := [("rel", "\"next\""), ("role", "\"link\"")] }),
    ("MenuLink", { name := "MenuLink", styleKey := "menuLink", base := "Link", baseIsIntrinsic := false
                   staticAttrs := [("role", "\"menuitem\"")] }),
    ("HomeLink", { name := "HomeLink", styleKey := "homeLink", base := "MenuLink", baseIsIntrinsic := false
                   mixinRefs := ["mixins.bold"], staticAttrs := [("rel", "\"home\"")] })]

theorem plans_compose_menuArena : Named menuArena ∧
    (menuArena.All fun c => c.staticAttrs.names.Nodup) ∧
    ∃ p base, (planAll {} menuArena).get? "HomeLink" = some p ∧
      (planAll {} menuArena).get? p.component.base = some base ∧
      p.styleArgs = base.styleArgs ++ ownPart {} p.staticAttrs p.component ∧
      base.styleArgs ≠ [] ∧ ownPart {} p.staticAttrs p.component ≠ [] ∧
      p.staticAttrs.get? "role" = base.staticAttrs.get? "role" ∧
      p.staticAttrs.get? "rel" ≠ base.staticAttrs.get? "rel" ∧ p.element = "a" := by
  have hnamed : Named menuArena := by
    intro name c h
    have hmem := Table.mem_of_get? h
    simp only [menuArena, List.mem_cons, Prod.mk.injEq, List.not_mem_nil, or_false] at hmem
    rcases hmem with ⟨rfl, rfl⟩ | ⟨rfl, rfl⟩ | ⟨rfl, rfl⟩ <;> rfl
  have hattrs : menuArena.All fun c => c.staticAttrs.names.Nodup := by
    unfold Table.All
    decide
  have hacyclic : ∀ c, (settle {} menuArena).get? "HomeLink" = some c →
      ¬ Relation.TransGen (BasedOn (settle {} menuArena)) c c := by
    intro c hc h
    cases hc
    -- The bases of the component are the other two, and the last of them has none.
    obtain ⟨_, hmenu, h⟩ := Relation.TransGen.head'_iff.mp h
    cases hmenu
    obtain heq | ⟨_, hlink, h⟩ := h.cases_head
    · exact absurd (congrArg Component.name heq) (by decide)
    · cases hlink
      obtain heq | ⟨_, hnone, -⟩ := h.cases_head
      · exact absurd (congrArg Component.name heq) (by decide)
      · cases hnone
  obtain ⟨hargs, -, hattr, helement⟩ :=
    (plans_compose {} hnamed hattrs).1 "HomeLink" _ _ rfl rfl (hacyclic _ rfl) rfl rfl
  exact ⟨hnamed, hattrs, _, _, rfl, rfl, hargs, by decide, by decide, hattr "role" (by decide), by decide,
    (helement rfl).1.trans rfl⟩
end Restyle.Plan
