import Mathlib.Data.List.Perm.Subperm
import Mathlib.Logic.Relation
import Restyle.Proofs.Outcomes

/-!
# Props with dollar signs

A prop with a dollar sign is meant for the styles of a component and not for the plain element that the
component renders.  A wrapper over a plain element takes the props of this kind that are passed at its own
usages and those that it or its bases read.  A component over another component hands on what it does not
take itself, and the wrapper at the end of such a chain was planned without regard to the usages of the
components before it.
-/

namespace Restyle.Plan

/-! ## Facts about usages -/

theorem mem_addTo {names : List String} {name other : String} :
    other ∈ UsageFacts.addTo names name ↔ other ∈ names ∨ other = name := by
  unfold UsageFacts.addTo
  split
  · next hmem =>
      constructor
      · exact .inl
      · rintro (h | rfl)
        · exact h
        · simpa using hmem
  · simp

theorem mem_foldl_addTo {added names : List String} {other : String} :
    other ∈ added.foldl UsageFacts.addTo names ↔ other ∈ names ∨ other ∈ added := by
  induction added generalizing names with
  | nil => simp
  | cons name added ih =>
      rw [List.foldl_cons, ih, mem_addTo, List.mem_cons, or_assoc]

namespace UsageFacts

/-- The props with dollar signs that are known to be passed to a component. -/
def passedTo (f : UsageFacts) (name : String) : List String :=
  (f.transientProps.get? name).getD []

theorem mem_passedTo_addUsage (f : UsageFacts) (u : Module.Usage) {name prop : String} :
    prop ∈ (f.addUsage u).passedTo name ↔ prop ∈ f.passedTo name ∨
      u.name = name ∧ Text.hasLead "$" prop = true ∧ ∃ a ∈ u.attributes, a.name = some prop := by
  have hdollars : prop ∈ u.attributes.filterMap (fun a => a.name.filter fun n => Text.hasLead "$" n) ↔
      Text.hasLead "$" prop = true ∧ ∃ a ∈ u.attributes, a.name = some prop := by
    simp only [List.mem_filterMap, Option.filter_eq_some_iff]
    tauto
  rw [← hdollars]
  unfold passedTo addUsage
  dsimp only
  split
  · next hempty =>
      rw [List.isEmpty_iff.mp hempty]
      simp
  · by_cases hname : u.name = name
    · subst hname
      rw [Table.get?_set_self, Option.getD_some, mem_foldl_addTo]
      simp
    · rw [Table.get?_set_of_ne _ _ hname]
      simp [hname]

/-- The facts list for a component the attributes with dollar signs at its usages. -/
theorem mem_passedTo_ofUsages (usages : List Module.Usage) (valueRefs : List String) {name prop : String} :
    prop ∈ (ofUsages usages valueRefs).passedTo name ↔ Text.hasLead "$" prop = true ∧
      ∃ u ∈ usages, u.name = name ∧ ∃ a ∈ u.attributes, a.name = some prop := by
  have hfold : ∀ f : UsageFacts, prop ∈ (usages.foldl addUsage f).passedTo name ↔ prop ∈ f.passedTo name ∨
      ∃ u ∈ usages, u.name = name ∧ Text.hasLead "$" prop = true ∧ ∃ a ∈ u.attributes, a.name = some prop := by
    induction usages with
    | nil => simp
    | cons u usages ih =>
        intro f
        rw [List.foldl_cons, ih, mem_passedTo_addUsage, or_assoc, List.exists_mem_cons_iff]
  have hstart : prop ∉ ({ valueRefs := valueRefs } : UsageFacts).passedTo name := nofun
  unfold ofUsages
  rw [hfold, or_iff_right hstart]
  constructor
  · rintro ⟨u, hu, hname, hdollar, hpassed⟩
    exact ⟨hdollar, u, hu, hname, hpassed⟩
  · rintro ⟨hdollar, u, hu, hname, hpassed⟩
    exact ⟨u, hu, hname, hdollar, hpassed⟩

end UsageFacts

/-- A prop with a dollar sign is passed at a usage of a component. -/
structure Passed (b : Basis) (name prop : String) : Prop where
  dollar : Text.hasLead "$" prop = true
  listed : prop ∈ b.facts.passedTo name

/-! ## The way of a prop -/

/-- Whether a planned component keeps a prop from its element. -/
def withholds (p : ComponentPlan) (prop : String) : Bool :=
  if p.isInline then Emit.CallSites.isDropped p prop else p.takenProps.contains prop

/-- A prop that is passed to a component comes to a plain element. -/
inductive ReachesHost (plans : Table ComponentPlan) (prop : String) : String → Prop where
  | host {name : String} {p : ComponentPlan} (hplan : plans.get? name = some p)
      (hkept : withholds p prop = false) (hplain : p.elementIsIntrinsic = true) : ReachesHost plans prop name
  | through {name : String} {p : ComponentPlan} (hplan : plans.get? name = some p)
      (hkept : withholds p prop = false) (hcomponent : p.elementIsIntrinsic = false)
      (hrest : ReachesHost plans prop p.element) : ReachesHost plans prop name

/-- Follows a prop over at most a number of components. -/
def reaches (plans : Table ComponentPlan) (prop : String) : Nat → String → Bool
  | 0, _ => false
  | n + 1, name =>
    (plans.get? name).any fun p =>
      !withholds p prop && (p.elementIsIntrinsic || reaches plans prop n p.element)

theorem reachesHost_of_reaches {plans : Table ComponentPlan} {prop : String} {n : Nat} {name : String}
    (h : reaches plans prop n name = true) : ReachesHost plans prop name := by
  induction n generalizing name with
  | zero => cases h
  | succ n ih =>
      obtain ⟨p, hplan, hp⟩ := (Option.any_eq_true _ _).mp h
      rw [Bool.and_eq_true, Bool.not_eq_true'] at hp
      cases hplain : p.elementIsIntrinsic with
      | true => exact .host hplan hp.1 hplain
      | false =>
          rw [hplain, Bool.false_or] at hp
          exact .through hplan hp.1 hplain (ih hp.2)

/-! ## Chains of bases -/

section Chains

variable {arena : Arena}

/-- A component is the one that is found under its name. -/
def Stored (arena : Arena) (c : Component) : Prop :=
  arena.get? c.name = some c

/-- A component of the module has another one as its base. -/
def BasedOn (arena : Arena) (c d : Component) : Prop :=
  localBase? arena c = some d

theorem Stored.eq {c d : Component} (hc : Stored arena c) (hd : Stored arena d) (h : c.name = d.name) : c = d := by
  unfold Stored at hc
  rw [h, hd] at hc
  exact (Option.some.inj hc).symm

theorem stored_of_named (hnamed : Named arena) {name : String} {c : Component} (h : arena.get? name = some c) :
    Stored arena c := by
  cases hnamed name c h
  exact h

theorem BasedOn.stored {c d : Component} (h : BasedOn arena c d) (hnamed : Named arena) : Stored arena d := by
  unfold BasedOn localBase? at h
  split at h
  · cases h
  · exact stored_of_named hnamed h

/-- A way from a component down its bases that meets no name twice and none of the given ones. -/
inductive Descends (arena : Arena) : List String → Component → Component → Prop where
  | here {seen : List String} {c : Component} (hfresh : c.name ∉ seen) : Descends arena seen c c
  | down {seen : List String} {c d e : Component} (hfresh : c.name ∉ seen) (hbase : BasedOn arena c d)
      (hrest : Descends arena (c.name :: seen) d e) : Descends arena seen c e

namespace Descends

theorem anti {seen fewer : List String} {c e : Component} (h : Descends arena seen c e) (hsub : fewer ⊆ seen) :
    Descends arena fewer c e := by
  induction h generalizing fewer with
  | here hfresh => exact .here fun hmem => hfresh (hsub hmem)
  | down hfresh hbase _ ih =>
      exact .down (fun hmem => hfresh (hsub hmem)) hbase (ih (List.cons_subset_cons _ hsub))

/-- A way avoids a name, or the component of that name has a way to the same end. -/
theorem avoid (hnamed : Named arena) {seen : List String} {c e : Component} (h : Descends arena seen c e)
    (hc : Stored arena c) (name : String) :
    Descends arena (name :: seen) c e ∨ ∃ d, Stored arena d ∧ d.name = name ∧ Descends arena seen d e := by
  induction h with
  | @here seen c hfresh =>
      by_cases heq : c.name = name
      · exact .inr ⟨c, hc, heq, .here hfresh⟩
      · exact .inl (.here (by simp [heq, hfresh]))
  | @down seen c d e hfresh hbase hrest ih =>
      by_cases heq : c.name = name
      · exact .inr ⟨c, hc, heq, .down hfresh hbase hrest⟩
      · rcases ih (hbase.stored hnamed) with h | ⟨d', hd', hname, h⟩
        · exact .inl (.down (by simp [heq, hfresh]) hbase (h.anti (List.Perm.swap _ _ _).subset))
        · exact .inr ⟨d', hd', hname, h.anti (List.subset_cons_self _ _)⟩

theorem basedOn {seen : List String} {c e : Component} (h : Descends arena seen c e) :
    Relation.ReflTransGen (BasedOn arena) c e := by
  induction h with
  | here _ => exact .refl
  | down _ hbase _ ih => exact .head hbase ih

end Descends

/-- Every component down the bases is reached without meeting a name twice. -/
theorem descends_iff (hnamed : Named arena) {c e : Component} (hc : Stored arena c) :
    Descends arena [] c e ↔ Relation.ReflTransGen (BasedOn arena) c e := by
  constructor
  · exact Descends.basedOn
  · intro h
    induction h using Relation.ReflTransGen.head_induction_on with
    | refl => exact .here nofun
    | @head c d hbase _ ih =>
        rcases (ih (hbase.stored hnamed)).avoid hnamed (hbase.stored hnamed) c.name with h | ⟨d', hd', hname, h⟩
        · exact .down nofun hbase h
        · -- The way comes back to the component: its last part is enough.
          cases hd'.eq hc hname
          exact h

/-- The search for props goes down all bases: there are at most as many as components. -/
theorem mem_chainProps_iff (hnamed : Named arena) {n : Nat} {seen : List String} {c : Component} {prop : String}
    (hc : Stored arena c) (hnodup : seen.Nodup) (hknown : seen ⊆ arena.names)
    (hfuel : arena.length < n + seen.length) :
    prop ∈ chainProps arena n seen c ↔ ∃ e, Descends arena seen c e ∧ prop ∈ e.transientProps := by
  induction n generalizing seen c with
  | zero =>
      have hle := (hnodup.subperm hknown).length_le
      rw [Table.names, List.length_map] at hle
      omega
  | succ n ih =>
      rw [chainProps]
      split
      · next hseen =>
          constructor
          · intro h
            cases h
          · rintro ⟨e, h, -⟩
            cases h with
            | here hfresh => exact absurd hseen (by simpa using hfresh)
            | down hfresh _ _ => exact absurd hseen (by simpa using hfresh)
      · next hfresh =>
          replace hfresh : c.name ∉ seen := by simpa using hfresh
          have hrest : ∀ d, BasedOn arena c d → (prop ∈ chainProps arena n (c.name :: seen) d ↔
              ∃ e, Descends arena (c.name :: seen) d e ∧ prop ∈ e.transientProps) := fun d hbase =>
            ih (hbase.stored hnamed) (List.nodup_cons.mpr ⟨hfresh, hnodup⟩)
              (List.cons_subset.mpr ⟨Table.mem_names_of_get? hc, hknown⟩) (by rw [List.length_cons]; omega)
          rw [List.mem_append]
          constructor
          · rintro (h | h)
            · exact ⟨c, .here hfresh, h⟩
            · cases hbase : localBase? arena c with
              | none =>
                  rw [hbase] at h
                  cases h
              | some d =>
                  rw [hbase] at h
                  obtain ⟨e, hdown, he⟩ := (hrest d hbase).mp h
                  exact ⟨e, .down hfresh hbase hdown, he⟩
          · rintro ⟨e, hdown, he⟩
            cases hdown with
            | here _ => exact .inl he
            | @down _ _ d _ _ hbase hdown =>
                rw [show localBase? arena c = some d from hbase]
                exact .inr ((hrest d hbase).mpr ⟨e, hdown, he⟩)

end Chains

/-! ## What a component takes -/

/-- The element of a component, whether it is a plain one, and the attributes that it always has. -/
def rendered (b : Basis) (arena : Arena) (c : Component) : String × Bool × Table String :=
  elementOf (follow b arena (arena.length + 1) [c.name]
    { last := c, attrs := c.staticAttrs, rules := c.elementRules })

/-- The props that a component takes whatever it renders. -/
def ownProps (c : Component) : List String :=
  c.siblingSelectors.map (·.propName) ++ c.propDependencies ++ c.heldBack

theorem mem_firstOccurrences {names : List String} {name : String} :
    name ∈ Text.firstOccurrences names ↔ name ∈ names := by
  have hfold : ∀ seen : List String,
      name ∈ names.foldl (fun seen x => if seen.contains x then seen else x :: seen) seen ↔
        name ∈ seen ∨ name ∈ names := by
    induction names with
    | nil => simp
    | cons x names ih =>
        intro seen
        rw [List.foldl_cons, ih, List.mem_cons, ← or_assoc]
        split
        · next hseen =>
            replace hseen : x ∈ seen := by simpa using hseen
            have habsorb : name = x → name ∈ seen := fun h => h ▸ hseen
            rw [or_iff_left_of_imp habsorb]
        · rw [List.mem_cons, or_comm (a := name = x)]
  unfold Text.firstOccurrences
  rw [List.mem_reverse, hfold, or_iff_right List.not_mem_nil]

section Plans

variable {b : Basis} {arena : Arena} {prop : String} {c : Component}

theorem ne_empty_of_dollar (h : Text.hasLead "$" prop = true) : prop ≠ "" := by
  rintro rfl
  exact absurd h (by decide)

/-- A wrapper over another component takes its own props; one over a plain element takes those with dollar signs too. -/
theorem mem_takenProps_iff (hdollar : Text.hasLead "$" prop = true) :
    prop ∈ (planComponent b arena c).takenProps ↔ prop ∈ ownProps c ∨
      (rendered b arena c).2.1 = true ∧
        (prop ∈ b.facts.passedTo c.name ∨ prop ∈ chainProps arena (arena.length + 1) [] c) := by
  have hne := ne_empty_of_dollar hdollar
  unfold planComponent
  dsimp only
  rw [mem_firstOccurrences, List.mem_filter, List.mem_append]
  unfold rendered ownProps UsageFacts.passedTo
  cases (elementOf (follow b arena (arena.length + 1) [c.name]
    { last := c, attrs := c.staticAttrs, rules := c.elementRules })).2.1 <;> simp [hne]

/-- A component renders another one and does not keep a prop from it. -/
structure HandsOn (b : Basis) (arena : Arena) (prop : String) (c d : Component) : Prop where
  component : (rendered b arena c).2.1 = false
  target : arena.get? (rendered b arena c).1 = some d
  /-- At a usage that becomes the element, an attribute that the element always has replaces the prop. -/
  inlined : renderMode b c = .inline → Table.has (rendered b arena c).2.2 prop = false
  wrapped : renderMode b c = .component → prop ∉ ownProps c

/-- A wrapper over a plain element that is planned without regard to a prop. -/
structure Exposes (b : Basis) (arena : Arena) (prop : String) (c : Component) : Prop where
  plain : (rendered b arena c).2.1 = true
  wrapper : renderMode b c = .component
  unbound : prop ∉ ownProps c
  unpassed : prop ∉ b.facts.passedTo c.name
  unread : ∀ d, Relation.ReflTransGen (BasedOn arena) c d → prop ∉ d.transientProps

theorem withholds_inline (h : renderMode b c = .inline) :
    withholds (planComponent b arena c) prop =
      (Table.has (rendered b arena c).2.2 prop || ((rendered b arena c).2.1 && Text.hasLead "$" prop)) := by
  have hinline : (planComponent b arena c).isInline = true := beq_iff_eq.mpr h
  unfold withholds
  rw [if_pos hinline]
  rfl

theorem withholds_component (h : renderMode b c = .component) :
    withholds (planComponent b arena c) prop = (planComponent b arena c).takenProps.contains prop := by
  have hcomponent : (planComponent b arena c).isInline = false := by
    change (renderMode b c == .inline) = false
    rw [h]
    rfl
  unfold withholds
  rw [hcomponent]
  rfl

/-- What a component with a plain element lets through is what its wrapper was planned without. -/
theorem exposes_iff (hnamed : Named arena) (hc : Stored arena c) (hdollar : Text.hasLead "$" prop = true) :
    (rendered b arena c).2.1 = true ∧ withholds (planComponent b arena c) prop = false ↔
      Exposes b arena prop c := by
  have hchain : prop ∈ chainProps arena (arena.length + 1) [] c ↔
      ∃ d, Relation.ReflTransGen (BasedOn arena) c d ∧ prop ∈ d.transientProps := by
    rw [mem_chainProps_iff hnamed hc List.nodup_nil (List.nil_subset _) (by simp)]
    simp only [descends_iff hnamed hc]
  have htaken : (rendered b arena c).2.1 = true → ((planComponent b arena c).takenProps.contains prop = false ↔
      prop ∉ ownProps c ∧ prop ∉ b.facts.passedTo c.name ∧
        ∀ d, Relation.ReflTransGen (BasedOn arena) c d → prop ∉ d.transientProps) := by
    intro hplain
    rw [← Bool.not_eq_true, List.contains_iff_mem, mem_takenProps_iff hdollar, hchain]
    simp [hplain]
  constructor
  · rintro ⟨hplain, hkept⟩
    cases hmode : renderMode b c with
    | inline =>
        -- At a usage that becomes a plain element, the prop is deleted.
        rw [withholds_inline hmode, hplain, hdollar] at hkept
        simp at hkept
    | component =>
        rw [withholds_component hmode] at hkept
        obtain ⟨hunbound, hunpassed, hunread⟩ := (htaken hplain).mp hkept
        exact ⟨hplain, hmode, hunbound, hunpassed, hunread⟩
  · intro h
    rw [withholds_component h.wrapper]
    exact ⟨h.plain, (htaken h.plain).mpr ⟨h.unbound, h.unpassed, h.unread⟩⟩

/-- What a component over another one lets through. -/
theorem handsOn_iff {d : Component} (hdollar : Text.hasLead "$" prop = true) :
    (rendered b arena c).2.1 = false ∧ withholds (planComponent b arena c) prop = false ∧
        arena.get? (rendered b arena c).1 = some d ↔ HandsOn b arena prop c d := by
  have htaken : (rendered b arena c).2.1 = false →
      ((planComponent b arena c).takenProps.contains prop = false ↔ prop ∉ ownProps c) := by
    intro hcomponent
    rw [← Bool.not_eq_true, List.contains_iff_mem, mem_takenProps_iff hdollar]
    simp [hcomponent]
  constructor
  · rintro ⟨hcomponent, hkept, htarget⟩
    refine ⟨hcomponent, htarget, fun hmode => ?_, fun hmode => ?_⟩
    · rw [withholds_inline hmode, hcomponent] at hkept
      simpa using hkept
    · rw [withholds_component hmode] at hkept
      exact (htaken hcomponent).mp hkept
  · rintro ⟨hcomponent, htarget, hinlined, hwrapped⟩
    refine ⟨hcomponent, ?_, htarget⟩
    cases hmode : renderMode b c with
    | inline =>
        rw [withholds_inline hmode, hcomponent, hinlined hmode]
        rfl
    | component =>
        rw [withholds_component hmode]
        exact (htaken hcomponent).mpr (hwrapped hmode)

end Plans

/-! ## Props that come through -/

theorem named_settle (b : Basis) {arena : Arena} (h : Named arena) : Named (settle b arena) := by
  intro name c hc
  unfold settle at hc
  dsimp only at hc
  rw [Table.get?_map] at hc
  · obtain ⟨original, horiginal, rfl⟩ := Option.map_eq_some_iff.mp hc
    exact h name original horiginal
  · exact fun _ => rfl

/-- The plan of a component is found under its name. -/
theorem get?_planAll (b : Basis) (arena : Arena) (name : String) : (planAll b arena).get? name =
    ((settle b arena).get? name).map (planComponent b (settle b arena)) := by
  unfold planAll
  rw [Table.get?_map]
  exact fun _ => rfl

/-- A prop comes to a plain element on a way over components that ends at a wrapper planned without it. -/
theorem reachesHost_iff {b : Basis} {arena : Arena} (hnamed : Named arena) {prop : String}
    (hdollar : Text.hasLead "$" prop = true) (name : String) :
    ReachesHost (planAll b arena) prop name ↔ ∃ c last, (settle b arena).get? name = some c ∧
      Relation.ReflTransGen (HandsOn b (settle b arena) prop) c last ∧ Exposes b (settle b arena) prop last := by
  have hsettled := named_settle b hnamed
  constructor
  · intro h
    induction h with
    | host hplan hkept hplain =>
        rw [get?_planAll] at hplan
        obtain ⟨c, hc, rfl⟩ := Option.map_eq_some_iff.mp hplan
        exact ⟨c, c, hc, .refl, (exposes_iff hsettled (stored_of_named hsettled hc) hdollar).mp ⟨hplain, hkept⟩⟩
    | through hplan hkept hcomponent _ ih =>
        rw [get?_planAll] at hplan
        obtain ⟨c, hc, rfl⟩ := Option.map_eq_some_iff.mp hplan
        obtain ⟨d, last, hd, hway, hexposes⟩ := ih
        exact ⟨c, last, hc, .head ((handsOn_iff hdollar).mp ⟨hcomponent, hkept, hd⟩) hway, hexposes⟩
  · rintro ⟨c, last, hc, hway, hexposes⟩
    induction hway using Relation.ReflTransGen.head_induction_on generalizing name with
    | refl =>
        obtain ⟨hplain, hkept⟩ := (exposes_iff hsettled (stored_of_named hsettled hc) hdollar).mpr hexposes
        exact .host (by rw [get?_planAll, hc]; rfl) hkept hplain
    | @head c d hhands _ ih =>
        obtain ⟨hcomponent, hkept, htarget⟩ := (handsOn_iff hdollar).mpr hhands
        exact .through (by rw [get?_planAll, hc]; rfl) hkept hcomponent (ih _ htarget)

/--
No prop with a dollar sign that is passed at a usage comes to a plain element exactly if every wrapper over a
plain element to which other components hand such a prop on knows of it: because it is passed at its own
usages too, or because the wrapper or one of its bases reads it.
-/
theorem transient_withheld_iff {b : Basis} {arena : Arena} (hnamed : Named arena) :
    (∀ name prop, Passed b name prop → ¬ ReachesHost (planAll b arena) prop name) ↔
      ∀ name prop c last, Passed b name prop → (settle b arena).get? name = some c →
        Relation.TransGen (HandsOn b (settle b arena) prop) c last → ¬ Exposes b (settle b arena) prop last := by
  constructor
  · intro h name prop c last hpassed hc hway hexposes
    exact h name prop hpassed
      ((reachesHost_iff hnamed hpassed.dollar name).mpr ⟨c, last, hc, hway.to_reflTransGen, hexposes⟩)
  · intro h name prop hpassed hreaches
    obtain ⟨c, last, hc, hway, hexposes⟩ := (reachesHost_iff hnamed hpassed.dollar name).mp hreaches
    rcases Relation.reflTransGen_iff_eq_or_transGen.mp hway with rfl | hway
    · -- The component at whose usage the prop is passed knows of it.
      refine hexposes.unpassed ?_
      rw [named_settle b hnamed name last hc]
      exact hpassed.listed
    · exact h name prop c last hpassed hc hway hexposes

/-- A wrapper over a plain element, and a component over the wrapper. -/
def stackedArena : Arena :=
  [("A", { name := "A", styleKey := "a", base := "a", hasSpecificityHack := true }),
    ("B", { name := "B", styleKey := "b", base := "A", baseIsIntrinsic := false })]

/-- Usages of both components that pass the same prop. -/
def evenBasis : Basis :=
  { facts := { transientProps := [("A", ["$t"]), ("B", ["$t"])] } }

/-- A prop that is passed at usages of the wrapper too is taken, whichever component it is passed to. -/
theorem transient_withheld_stackedArena : Named stackedArena ∧ Passed evenBasis "B" "$t" ∧
    ∀ name prop, Passed evenBasis name prop → ¬ ReachesHost (planAll evenBasis stackedArena) prop name := by
  have hcases : ∀ name c, stackedArena.get? name = some c → c.name = name ∧ (name = "A" ∨ name = "B") := by
    intro name c h
    by_cases hA : "A" = name
    · subst hA
      cases h
      exact ⟨rfl, .inl rfl⟩
    · by_cases hB : "B" = name
      · subst hB
        cases h
        exact ⟨rfl, .inr rfl⟩
      · simp [stackedArena, Table.get?, hA, hB] at h
  have hnamed : Named stackedArena := fun name c h => (hcases name c h).1
  have hpassed : ∀ {name prop}, Passed evenBasis name prop → prop = "$t" := by
    rintro name prop ⟨-, h⟩
    by_cases hA : "A" = name
    · subst hA
      exact List.mem_singleton.mp h
    · by_cases hB : "B" = name
      · subst hB
        exact List.mem_singleton.mp h
      · simp [evenBasis, UsageFacts.passedTo, Table.get?, hA, hB] at h
  refine ⟨hnamed, ⟨by decide, List.mem_singleton.mpr rfl⟩, (transient_withheld_iff hnamed).mpr ?_⟩
  intro name prop c last h _ hway hexposes
  cases hpassed h
  obtain ⟨_, -, hlast⟩ := Relation.TransGen.tail'_iff.mp hway
  have hname := named_settle evenBasis hnamed _ _ hlast.target
  have hmem := Table.mem_names_of_get? hlast.target
  rw [← hname] at hmem
  refine hexposes.unpassed ?_
  have hnames : (settle evenBasis stackedArena).names = ["A", "B"] := rfl
  rw [hnames] at hmem
  rcases List.mem_cons.mp hmem with h | h
  · rw [h]
    decide
  · rw [List.mem_singleton.mp h]
    decide

end Restyle.Plan

namespace Restyle.Conversion

open Restyle.Plan (Passed ReachesHost UsageFacts reaches)

namespace Draft

/-- What the plans of a draft draw on. -/
def basis (p : Project) (d : Draft) : Plan.Basis :=
  let statements := (d.declarations.styled.filter fun s => d.arena.has s.name).map (·.statement)
  let refs := Module.valueReferences d.source d.arena.names statements
  { facts := { UsageFacts.ofUsages d.usages refs with styleReceivers := Emit.styleReceivers d.arena d.usages }
    summaries := p.summaries, path := d.source.path, stylesName := p.settings.stylesName, library := libraryName }

theorem plans_eq (p : Project) (d : Draft) : d.plans p = Plan.planAll (d.basis p) d.arena := rfl

/-- The props that the plans of a draft know to be passed are the attributes at the usages of its module. -/
theorem passed_basis_iff (p : Project) (d : Draft) (name prop : String) :
    Passed (d.basis p) name prop ↔ Text.hasLead "$" prop = true ∧
      ∃ u ∈ d.usages, u.name = name ∧ ∃ a ∈ u.attributes, a.name = some prop := by
  constructor
  · intro h
    exact (UsageFacts.mem_passedTo_ofUsages d.usages _).mp h.listed
  · intro h
    exact ⟨h.1, (UsageFacts.mem_passedTo_ofUsages d.usages _).mpr h⟩

end Draft

/-- A module that passes a prop to a component over a wrapper. -/
def forwardingModule : String :=
  "import styled from \"styled-components\";\nconst A = styled.a\x60width: $\x7bp => p.w\x7d;\x60;\n" ++
    "const B = styled(A)\x60color: red;\x60;\nconst x = <B $t/>;\n"

/-- The prop comes to the plain element of the wrapper, which is never used itself. -/
theorem reachesHost_forwardingModule : (Module.read forwardingModule "f.tsx").hasErrors = false ∧
    ∃ d helpers text, Emitted {} (Module.read forwardingModule "f.tsx") d helpers text ∧
      Passed (d.basis {}) "B" "$t" ∧ ReachesHost (Plan.planAll (d.basis {}) d.arena) "$t" "B" := by
  have hcheck : (emission? {} (Module.read forwardingModule "f.tsx")).any (fun e =>
      e.1.usages.any (fun u => u.name == "B" && u.attributes.any fun a => a.name == some "$t") &&
        reaches (e.1.plans {}) "$t" 2 "B") = true := by
    rw [Module.read, Tsx.Source.read_eq_ofChars (show forwardingModule.toList = _ from
      Text.toList_append_of String.toList_ofList String.toList_ofList)]
    decide +kernel
  obtain ⟨⟨d, helpers, text⟩, hemission, hcheck⟩ := (Option.any_eq_true _ _).mp hcheck
  obtain ⟨husage, hreaches⟩ := Bool.and_eq_true_iff.mp hcheck
  have hpassed : ∃ u ∈ d.usages, u.name = "B" ∧ ∃ a ∈ u.attributes, a.name = some "$t" := by
    simpa using husage
  have hemitted := emitted_of_emission? hemission
  refine ⟨hemitted.convertible.readable, d, helpers, text, hemitted, ?_, ?_⟩
  · exact (Draft.passed_basis_iff {} d "B" "$t").mpr ⟨by decide, hpassed⟩
  · rw [← Draft.plans_eq]
    exact Plan.reachesHost_of_reaches hreaches

end Restyle.Conversion
