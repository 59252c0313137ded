import Restyle.Conversion.Run
import Restyle.Proofs.Building
import Restyle.Proofs.Table

/-!
# Animations and mixins

The helpers of a module are built before its components.  Whether a mixin comes out as plain styles does
not depend on the registry keys of the other mixins, nor on anything that was built before; a mixin that
does not come out loses its key.
-/

namespace Restyle.Component

open Restyle.Interpolation (Classified Decision Place Traces)
open Restyle.Style (Answers Object SlotRequest)
open Restyle.Tsx (Node)
open Work (Alike OnStores Stops Stores)

/-- The plant with other registry keys for mixins. -/
abbrev Plant.withKeys (plant : Plant) (keys : Table String) : Plant :=
  Conversion.withKeys plant keys

/-! ## Components that differ in the texts of their references -/

/-- The component with other references. -/
def withRefs (c : Component) (refs : List String) : Component :=
  { c with mixinRefs := refs }

/-- The components under construction are the same but for the texts of their references. -/
def Rekeyed (w w' : Workshop) : Prop :=
  ∃ refs, w'.component = w.component.withRefs refs ∧
    refs.isEmpty = w.component.mixinRefs.isEmpty

theorem rekeyed_self (c : Component) (t t' : Traces) :
    Rekeyed { component := c, traces := t } { component := c, traces := t' } :=
  ⟨c.mixinRefs, rfl, rfl⟩

theorem addPropDependencies_withRefs (c : Component) (refs props : List String) :
    (c.withRefs refs).addPropDependencies props = (c.addPropDependencies props).withRefs refs := by
  unfold addPropDependencies
  induction props generalizing c with
  | nil => rfl
  | cons p props ih =>
      rw [List.foldl_cons, List.foldl_cons]
      by_cases h : (p.isEmpty || c.propDependencies.contains p) = true
      · simp only [withRefs, h, if_true]
        exact ih c
      · simp only [withRefs, h]
        exact ih { c with propDependencies := c.propDependencies ++ [p] }

theorem mixinRefs_addPropDependencies (c : Component) (props : List String) :
    (c.addPropDependencies props).mixinRefs = c.mixinRefs := by
  obtain ⟨deps, h⟩ := addPropDependencies_frame c props
  rw [h]

/-- The references after one more; they are not empty. -/
theorem record_reference_refs (c : Component) (code : String) (classified : Classified)
    (place : Place) :
    ∃ refs, (c.record (.reference code) classified place).component = c.withRefs refs ∧
      refs.isEmpty = false := by
  unfold record
  dsimp only
  split
  · next h =>
      refine ⟨c.mixinRefs, rfl, ?_⟩
      cases hrefs : c.mixinRefs with
      | nil => simp [hrefs] at h
      | cons r rs => rfl
  · refine ⟨c.mixinRefs ++ [code], rfl, ?_⟩
    simp

/-- References keep components the same but for the texts of their references. -/
theorem Rekeyed.reference {w w' : Workshop} (h : Rekeyed w w') (code code' : String)
    (classified : Classified) (place : Place) (t t' : Traces) :
    Rekeyed
      { component := (w.component.record (.reference code) classified place).component, traces := t }
      { component := (w'.component.record (.reference code') classified place).component,
        traces := t' } := by
  obtain ⟨refs, hc, -⟩ := h
  obtain ⟨refs₁, h₁, hempty₁⟩ := record_reference_refs w.component code classified place
  obtain ⟨refs₂, h₂, hempty₂⟩ := record_reference_refs w'.component code' classified place
  refine ⟨refs₂, ?_, ?_⟩
  · rw [h₁, h₂, hc]
    rfl
  · rw [h₁]
    exact hempty₂.trans hempty₁.symm

/-- Recording a decision other than a reference leaves the references alone. -/
theorem record_withRefs (c : Component) (refs : List String) (d : Decision)
    (hd : ∀ code, d ≠ .reference code) (classified : Classified) (place : Place) :
    ((c.withRefs refs).record d classified place).component =
      (c.record d classified place).component.withRefs refs ∧
    (c.record d classified place).component.mixinRefs = c.mixinRefs := by
  cases d with
  | reference code => exact absurd rfl (hd code)
  | convert value =>
      unfold record
      dsimp only
      split
      · split <;> exact ⟨rfl, rfl⟩
      · exact ⟨rfl, rfl⟩
  | variant prop comparison base branches =>
      refine ⟨?_, mixinRefs_addPropDependencies _ _⟩
      exact addPropDependencies_withRefs
        { c with variants := branches.foldl addBranch c.variants } refs [prop]
  | dynamic v =>
      refine ⟨?_, mixinRefs_addPropDependencies _ _⟩
      exact addPropDependencies_withRefs
        { c with dynamicEntries := c.dynamicEntries ++ [dynamicEntry c v place] } refs
        [(dynamicEntry c v place).propName]
  | bail reason props inline =>
      unfold record recordBail
      dsimp only
      split
      · exact ⟨rfl, rfl⟩
      split
      · exact ⟨rfl, rfl⟩
      · split
        · exact ⟨rfl, rfl⟩
        · refine ⟨?_, mixinRefs_addPropDependencies _ _⟩
          rw [← addPropDependencies_withRefs]
          rfl

/-- The same decision keeps components the same but for the texts of their references. -/
theorem Rekeyed.record {w w' : Workshop} (h : Rekeyed w w') (d : Decision) (classified : Classified)
    (place : Place) (t t' : Traces) :
    Rekeyed { component := (w.component.record d classified place).component, traces := t }
      { component := (w'.component.record d classified place).component, traces := t' } := by
  obtain ⟨refs, hc, hempty⟩ := h
  by_cases hd : ∃ code, d = .reference code
  · obtain ⟨code, rfl⟩ := hd
    exact Rekeyed.reference ⟨refs, hc, hempty⟩ code code classified place t t'
  · obtain ⟨hsame, hkept⟩ := record_withRefs w.component refs d (fun code h => hd ⟨code, h⟩)
      classified place
    refine ⟨refs, ?_, ?_⟩
    · rw [hc]
      exact hsame
    · rw [hkept]
      exact hempty

/-! ## Keys have no influence -/

theorem withKeys_env (plant : Plant) (keys : Table String) :
    (plant.withKeys keys).env = plant.env.withKeys keys := rfl

theorem reply_reference (c : Component) (code : String) (classified : Classified) (place : Place) :
    (c.record (.reference code) classified place).reply = .omit := by
  unfold record
  dsimp only
  split <;> rfl

/-- Answering a slot under other keys differs in the texts of references only. -/
theorem alike_slot_withKeys (plant : Plant) (keys : Table String) (template : Css.Template Node)
    (request : SlotRequest) :
    Alike (OnStores Rekeyed) (resolveSlot plant template request)
      (resolveSlot (plant.withKeys keys) template request) := by
  intro s t hst
  cases hslot : template.slot? request.index with
  | none =>
      unfold resolveSlot
      rw [hslot]
      exact ⟨rfl, hst⟩
  | some slot =>
      obtain ⟨d, hrun⟩ := run_resolveSlot plant template request hslot s
      obtain ⟨d', hrun'⟩ := run_resolveSlot (plant.withKeys keys) template request hslot t
      obtain ⟨refs, hc, -⟩ := hst.1
      have hplace : t.store.component.placeOf request = s.store.component.placeOf request := by
        rw [hc]
        rfl
      have hclassified : (plant.withKeys keys).classified slot request =
          plant.classified slot request := rfl
      rw [hrun, hrun', hplace, hclassified, withKeys_env]
      rcases Interpolation.decide_withKeys plant.env keys (plant.classified slot request)
        (s.store.component.placeOf request) with hsame | ⟨code, code', hcode, hcode'⟩
      · have hdecide := (Interpolation.constant_decide plant.env (plant.classified slot request)
          (s.store.component.placeOf request)).run_fst_eq s.store.traces t.store.traces
        rw [hsame]
        cases h : (Interpolation.decide plant.env (plant.classified slot request)
            (s.store.component.placeOf request)).run s.store.traces with
        | mk result traces =>
            cases h' : (Interpolation.decide plant.env (plant.classified slot request)
                (s.store.component.placeOf request)).run t.store.traces with
            | mk result' traces' =>
                rw [h, h'] at hdecide
                cases hdecide
                cases result with
                | error f => exact ⟨rfl, hst⟩
                | ok decision =>
                    exact ⟨congrArg Except.ok (record_reply _ _ _ _ _),
                      hst.1.record decision _ _ traces traces', hst.2⟩
      · rw [hcode, hcode']
        refine ⟨congrArg Except.ok ?_, hst.1.reference code code' _ _ _ _, hst.2⟩
        rw [reply_reference, reply_reference]

/-- Texts in selectors do not depend on keys. -/
theorem alike_selector_withKeys (plant : Plant) (keys : Table String)
    (template : Css.Template Node) (index : Nat) :
    Alike (OnStores Rekeyed) (resolveSelector plant template index)
      (resolveSelector (plant.withKeys keys) template index) := by
  intro s t hst
  obtain ⟨text, hquiet⟩ := exists_quiet_resolveSelector plant template index
  have hsame : resolveSelector (plant.withKeys keys) template index =
      resolveSelector plant template index := rfl
  obtain ⟨d, e, hrun⟩ := hquiet s
  obtain ⟨d', e', hrun'⟩ := hquiet t
  rw [hsame, hrun, hrun']
  exact ⟨rfl, hst⟩

/-- Other keys for mixins give the same answers. -/
theorem answers_withKeys (plant : Plant) (keys : Table String) (template : Css.Template Node)
    (c : Component) : (plant.withKeys keys).answers template c = plant.answers template c := by
  have hslot : ((plant.withKeys keys).answers template c).slot = (plant.answers template c).slot := by
    funext request
    have h := alike_slot_withKeys plant keys template request
      { store := { component := c } } { store := { component := c } } ⟨rekeyed_self c _ _, rfl⟩
    exact h.1.symm
  exact congrArg (fun slot => Answers.mk slot _) hslot

theorem clash_withKeys (plant : Plant) (keys : Table String) (parts : Module.TemplateParts)
    (c : Component) : (plant.withKeys keys).Clash parts c ↔ plant.Clash parts c := by
  unfold Plant.Clash
  simp only [answers_withKeys]

theorem alike_withImportant {τ υ : Type} {S : τ → υ → Prop} {work : Work τ Object}
    {other : Work υ Object} (h : Alike (OnStores S) work other) :
    Alike (Stores S) (Style.withImportant work) (Style.withImportant other) := by
  intro s t hst
  obtain ⟨hresult, hstore, himportant⟩ :=
    h { s with important := [] } { t with important := [] } ⟨hst, rfl⟩
  rw [run_withImportant, run_withImportant]
  cases hs : work.run { s with important := [] } with
  | mk result s' =>
      cases ht : other.run { t with important := [] } with
      | mk result' t' =>
          rw [hs, ht] at hresult hstore himportant
          cases hresult
          cases result with
          | error f => exact ⟨rfl, hstore⟩
          | ok styles => exact ⟨congrArg (fun found => Except.ok (styles, found)) himportant, hstore⟩

theorem alike_report (kind : DiagnosticKind) (details : List (String × Data)) :
    Alike (Stores Rekeyed) (Building.report kind details) (Building.report kind details) :=
  fun _ _ h => ⟨rfl, h⟩

theorem alike_isPlain : Alike (Stores Rekeyed) isPlain isPlain := by
  intro s t hst
  obtain ⟨refs, hc, hempty⟩ := hst
  have hcheck : (t.store.component.variants.isEmpty && t.store.component.dynamicEntries.isEmpty &&
      t.store.component.mixinRefs.isEmpty && t.store.component.inlineStyles.isEmpty) =
      (s.store.component.variants.isEmpty && s.store.component.dynamicEntries.isEmpty &&
      s.store.component.mixinRefs.isEmpty && s.store.component.inlineStyles.isEmpty) := by
    rw [hc]
    simp only [withRefs, hempty]
  unfold isPlain
  rw [Work.run_bind_ok _ (Building.run_component s), Work.run_bind_ok _ (Building.run_component t),
    hcheck]
  split
  · exact ⟨rfl, refs, hc, hempty⟩
  · exact ⟨rfl, refs, hc, hempty⟩

theorem alike_convertRead (plant : Plant) (keys : Table String) (parts : Module.TemplateParts)
    (template : Css.Template Node) :
    Alike (Stores Rekeyed) (convertRead plant parts template)
      (convertRead (plant.withKeys keys) parts template) := by
  unfold convertRead
  refine Alike.bind (.forIn _ (fun _ _ => (alike_report _ _).bind fun _ => .pure _) _) fun _ => ?_
  have hcomponent {α : Type} (k : Component → Building α) :
      (Building.component >>= k) = Work.store >>= fun w => k w.component := rfl
  rw [hcomponent, hcomponent]
  refine Alike.store_bind fun w w' hw => ?_
  refine Alike.bind (alike_withImportant (Style.alike_convert (Work.oblivious_onStores _)
    (alike_selector_withKeys plant keys template) template.root
    fun request _ => alike_slot_withKeys plant keys template request)) fun found => ?_
  refine Alike.bind (.update fun a b hab => ?_) fun _ => ?_
  · obtain ⟨refs, hc, hempty⟩ := hab
    exact ⟨refs, by rw [hc]; rfl, hempty⟩
  · refine Alike.bind (.forIn _ (fun _ _ => ?_) _) fun _ => .pure _
    exact (Alike.trace (Work.oblivious_stores _) _ _).bind fun _ => .pure _

theorem alike_convertTemplate? (plant : Plant) (keys : Table String)
    (parts : Module.TemplateParts) :
    Alike (Stores Rekeyed) (convertTemplate? plant parts)
      (convertTemplate? (plant.withKeys keys) parts) := by
  rw [convertTemplate?_eq, convertTemplate?_eq]
  refine Alike.bind ?_ fun template? => ?_
  · unfold readTemplate?
    split
    · exact (alike_report _ _).bind fun _ => .pure _
    · exact .pure _
  · cases template? with
    | none => exact .pure _
    | some template => exact alike_convertRead plant keys parts template

/-- What a mixin comes out as depends neither on keys nor on what was built before. -/
theorem buildMixin?_run_fst (plant : Plant) (keys : Table String) (d : Module.HelperDeclaration)
    (s t : Session Workshop) :
    ((buildMixin? (plant.withKeys keys) d).run t).1 = ((buildMixin? plant d).run s).1 := by
  unfold buildMixin?
  rw [run_starting, run_starting]
  have hstart : Stores Rekeyed { s with store := { s.store with component := scratch d } }
      { t with store := { t.store with component := scratch d } } := rekeyed_self _ _ _
  refine ((Alike.bind (alike_convertTemplate? plant keys d.template) fun styles? => ?_)
    _ _ hstart).1.symm
  cases styles? with
  | none => exact .pure _
  | some styles =>
      refine Alike.bind (.forIn _ (fun _ _ => (alike_report _ _).bind fun _ => .pure _) _)
        fun _ => ?_
      refine alike_isPlain.bind fun plain => ?_
      cases plain <;> exact .pure _

end Restyle.Component

namespace Restyle.Conversion

open Restyle.Component (Building Plant Workshop)
open Restyle.Module (Declarations HelperDeclaration)
open Restyle.Style (Object)
open Work (Stops)

/-! ## Mixins -/

/-- What a mixin comes out as: its styles, or nothing when they are not plain. -/
def mixinStyles (plant : Plant) (h : HelperDeclaration) : Except Fault (Option Object) :=
  ((Component.buildMixin? plant h).run { store := emptyWorkshop }).1

/-- The helpers with one more mixin. -/
def withMixin (plant : Plant) (helpers : Helpers) (h : HelperDeclaration) : Except Fault Helpers :=
  match mixinStyles plant h with
  | .error f => .error f
  | .ok none => .ok { helpers with mixinKeys := helpers.mixinKeys.erase h.name }
  | .ok (some styles) =>
    match helpers.mixinKeys.get? h.name with
    | none => .error (.missingName h.name)
    | some key => .ok { helpers with mixins := helpers.mixins.set key styles }

theorem run_addMixin_fst (plant : Plant) (helpers : Helpers) (h : HelperDeclaration)
    (s : Session Workshop) :
    ((addMixin plant helpers h).run s).1 = withMixin plant helpers h := by
  have hstyles : mixinStyles plant h =
      ((Component.buildMixin? (withKeys plant helpers.mixinKeys) h).run s).1 :=
    (Component.buildMixin?_run_fst plant helpers.mixinKeys h _ s).symm
  unfold addMixin withMixin
  rw [Work.run_bind, hstyles]
  cases (Component.buildMixin? (withKeys plant helpers.mixinKeys) h).run s with
  | mk result s' =>
      cases result with
      | error f => rfl
      | ok styles? =>
          cases styles? with
          | none => rfl
          | some styles =>
              dsimp only
              cases helpers.mixinKeys.get? h.name <;> rfl

/-- A mixin comes out as something else than plain styles. -/
def Rejects (plant : Plant) (h : HelperDeclaration) : Prop :=
  mixinStyles plant h = .ok none

/-- A mixin comes out as plain styles. -/
def Accepts (plant : Plant) (h : HelperDeclaration) : Prop :=
  ∃ styles, mixinStyles plant h = .ok (some styles)

/-- A mixin comes out as plain styles, but an earlier one of its name has lost the key. -/
def LosesKey (plant : Plant) (mixins : List HelperDeclaration) : Prop :=
  ∃ before h after, mixins = before ++ h :: after ∧ Accepts plant h ∧
    ∃ earlier ∈ before, earlier.name = h.name ∧ Rejects plant earlier

theorem mixinStyles_error_iff (plant : Plant) (h : HelperDeclaration) :
    (∃ f, mixinStyles plant h = .error f) ↔ plant.Clash h.template (Component.scratch h) :=
  Component.stops_buildMixin? plant h _

/-- A rejected mixin takes its name out of the keys; an accepted one leaves them alone. -/
theorem mixinKeys_withMixin {plant : Plant} {helpers next : Helpers} {h : HelperDeclaration}
    (hnext : withMixin plant helpers h = .ok next) :
    (¬ Rejects plant h ∧ next.mixinKeys = helpers.mixinKeys) ∨
      (Rejects plant h ∧ next.mixinKeys = helpers.mixinKeys.erase h.name) := by
  unfold withMixin at hnext
  unfold Rejects
  cases hstyles : mixinStyles plant h with
  | error f =>
      rw [hstyles] at hnext
      cases hnext
  | ok styles? =>
      rw [hstyles] at hnext
      cases styles? with
      | none =>
          cases hnext
          exact .inr ⟨rfl, rfl⟩
      | some styles =>
          dsimp only at hnext
          cases hkey : helpers.mixinKeys.get? h.name with
          | none =>
              rw [hkey] at hnext
              cases hnext
          | some key =>
              rw [hkey] at hnext
              cases hnext
              exact .inl ⟨nofun, rfl⟩

/-- The keys that are left are those of no rejected mixin. -/
theorem mem_mixinKeys_after {plant : Plant} {mixins : List HelperDeclaration}
    {helpers after : Helpers} (hnodup : helpers.mixinKeys.names.Nodup)
    (h : mixins.foldlM (withMixin plant) helpers = .ok after) (name : String) :
    name ∈ after.mixinKeys.names ↔
      name ∈ helpers.mixinKeys.names ∧ ∀ m ∈ mixins, m.name = name → ¬ Rejects plant m := by
  induction mixins generalizing helpers with
  | nil =>
      cases h
      simp
  | cons m mixins ih =>
      rw [List.foldlM_cons] at h
      cases hm : withMixin plant helpers m with
      | error f =>
          rw [hm] at h
          cases h
      | ok next =>
          rw [hm] at h
          rcases mixinKeys_withMixin hm with ⟨hm, hkeys⟩ | ⟨hm, hkeys⟩
          · rw [ih (by rw [hkeys]; exact hnodup) h, hkeys]
            simp only [List.forall_mem_cons]
            constructor
            · exact fun ⟨hname, hrest⟩ => ⟨hname, fun _ => hm, hrest⟩
            · exact fun ⟨hname, _, hrest⟩ => ⟨hname, hrest⟩
          · have hnames : next.mixinKeys.names = helpers.mixinKeys.names.erase m.name := by
              rw [hkeys, Table.names_erase]
            rw [ih (by rw [hnames]; exact hnodup.erase _) h, hnames, hnodup.mem_erase_iff]
            simp only [List.forall_mem_cons]
            constructor
            · exact fun ⟨⟨hne, hname⟩, hrest⟩ => ⟨hname, fun heq => absurd heq.symm hne, hrest⟩
            · exact fun ⟨hname, hhead, hrest⟩ => ⟨⟨fun heq => hhead heq.symm hm, hname⟩, hrest⟩

theorem withMixin_error_iff (plant : Plant) (helpers : Helpers) (h : HelperDeclaration) :
    (∃ f, withMixin plant helpers h = .error f) ↔
      (∃ f, mixinStyles plant h = .error f) ∨
        Accepts plant h ∧ h.name ∉ helpers.mixinKeys.names := by
  unfold withMixin Accepts
  rw [← Table.get?_eq_none_iff]
  cases mixinStyles plant h with
  | error f => simp
  | ok styles? =>
      cases styles? with
      | none => simp
      | some styles => cases helpers.mixinKeys.get? h.name <;> simp

/-- Mixins whose names all have keys break off at a clash, or at a key that an earlier one lost. -/
theorem mixins_error_iff (plant : Plant) (mixins : List HelperDeclaration) (helpers : Helpers)
    (hnodup : helpers.mixinKeys.names.Nodup)
    (hnames : ∀ m ∈ mixins, m.name ∈ helpers.mixinKeys.names) :
    (∃ f, mixins.foldlM (withMixin plant) helpers = .error f) ↔
      (∃ m ∈ mixins, plant.Clash m.template (Component.scratch m)) ∨ LosesKey plant mixins := by
  constructor
  · intro h
    obtain ⟨before, m, after, helpers', rfl, hbefore, hm⟩ := foldlM_error_iff.mp h
    have hmem : m ∈ before ++ m :: after := List.mem_append_right before List.mem_cons_self
    rcases (withMixin_error_iff plant helpers' m).mp hm with hclash | ⟨haccepts, hlost⟩
    · exact .inl ⟨m, hmem, (mixinStyles_error_iff plant m).mp hclash⟩
    · refine .inr ⟨before, m, after, rfl, haccepts, ?_⟩
      rw [mem_mixinKeys_after hnodup hbefore] at hlost
      refine Classical.byContradiction fun hnone => hlost ⟨hnames m hmem, ?_⟩
      exact fun m' hm' heq hr => hnone ⟨m', hm', heq, hr⟩
  · intro h
    cases hrun : mixins.foldlM (withMixin plant) helpers with
    | error f => exact ⟨f, rfl⟩
    | ok final =>
        exfalso
        rcases h with ⟨m, hm, hclash⟩ | ⟨before, m, after, rfl, haccepts, earlier, hearlier, hname, hr⟩
        · obtain ⟨before, after, rfl⟩ := List.append_of_mem hm
          obtain ⟨helpers', next, -, hnext, -⟩ := foldlM_ok_of_mem hrun
          obtain ⟨f, hf⟩ := (withMixin_error_iff plant helpers' m).mpr
            (.inl ((mixinStyles_error_iff plant m).mpr hclash))
          cases hnext.symm.trans hf
        · obtain ⟨helpers', next, hbefore, hnext, -⟩ := foldlM_ok_of_mem hrun
          have hlost : m.name ∉ helpers'.mixinKeys.names := by
            rw [mem_mixinKeys_after hnodup hbefore]
            exact fun ⟨_, hall⟩ => hall earlier hearlier hname hr
          obtain ⟨f, hf⟩ := (withMixin_error_iff plant helpers' m).mpr (.inr ⟨haccepts, hlost⟩)
          cases hnext.symm.trans hf

/-! ## All helpers -/

theorem stops_addAnimation (plant : Plant) (helpers : Helpers) (h : HelperDeclaration)
    (s : Session Workshop) :
    Stops (addAnimation plant helpers h) s ↔ plant.FrameClash h := by
  unfold addAnimation
  rw [Work.stops_bind_of_neverStops, Component.stops_buildFrames?]
  intro frames?
  cases frames? <;> exact Work.neverStops_pure _

theorem mixinKeys_addAnimation {plant : Plant} {helpers next : Helpers} {h : HelperDeclaration}
    {s s' : Session Workshop} (hrun : (addAnimation plant helpers h).run s = (.ok next, s')) :
    next.mixinKeys = helpers.mixinKeys := by
  unfold addAnimation at hrun
  rw [Work.run_bind] at hrun
  cases hframes : (Component.buildFrames? plant h).run s with
  | mk result s₁ =>
      rw [hframes] at hrun
      cases result with
      | error f => cases hrun
      | ok frames? =>
          cases frames? with
          | none =>
              cases hrun
              rfl
          | some frames =>
              cases hrun
              rfl

theorem mixinKeys_addAnimations {plant : Plant} {animations : List HelperDeclaration}
    {helpers after : Helpers} {s s' : Session Workshop}
    (hrun : (animations.foldlM (addAnimation plant) helpers).run s = (.ok after, s')) :
    after.mixinKeys = helpers.mixinKeys := by
  induction animations generalizing helpers s with
  | nil =>
      cases hrun
      rfl
  | cons h animations ih =>
      rw [List.foldlM_cons, Work.run_bind] at hrun
      cases hh : (addAnimation plant helpers h).run s with
      | mk result s₁ =>
          rw [hh] at hrun
          cases result with
          | error f => cases hrun
          | ok next => rw [ih hrun, mixinKeys_addAnimation hh]

theorem mixinKeys_nodup (d : Declarations) : d.mixinKeys.names.Nodup :=
  Table.nodup_names_ofList _

theorem name_mem_mixinKeys {d : Declarations} {m : HelperDeclaration} (h : m ∈ d.mixins) :
    m.name ∈ d.mixinKeys.names := by
  unfold Declarations.mixinKeys
  rw [Table.mem_names_ofList, List.map_map]
  exact List.mem_map_of_mem h

/-- The helpers of a module break off at a frame or a mixin that collides, or at a lost key. -/
theorem stops_buildHelpers (plant : Plant) (d : Declarations)
    (hkeys : plant.env.mixinKeys = d.mixinKeys) (s : Session Workshop) :
    Stops (buildHelpers plant d) s ↔
      (∃ h ∈ d.keyframes, plant.FrameClash h) ∨
      (∃ m ∈ d.mixins, plant.Clash m.template (Component.scratch m)) ∨
      LosesKey plant d.mixins := by
  have hanimations := Work.stops_foldlM_iff
    (fun h (_ : h ∈ d.keyframes) helpers s => stops_addAnimation plant helpers h s)
    { mixinKeys := plant.env.mixinKeys } s
  unfold buildHelpers
  by_cases hframes : ∃ h ∈ d.keyframes, plant.FrameClash h
  · exact iff_of_true (Work.stops_bind.mpr (.inl (hanimations.mpr hframes))) (.inl hframes)
  · obtain ⟨helpers, s', hrun⟩ := Work.exists_run_of_not_stops (mt hanimations.mp hframes)
    have hkeys' : helpers.mixinKeys = d.mixinKeys := (mixinKeys_addAnimations hrun).trans hkeys
    rw [Work.stops_bind_ok hrun, or_iff_right hframes]
    unfold Stops
    rw [run_foldlM_fst d.mixins fun m _ helpers s => run_addMixin_fst plant helpers m s]
    refine mixins_error_iff plant d.mixins helpers ?_ fun m hm => ?_
    · rw [hkeys']
      exact mixinKeys_nodup d
    · rw [hkeys']
      exact name_mem_mixinKeys hm

/-! ## Components -/

/-- The components of a module break off exactly when one that is not left out does. -/
theorem stops_buildComponents (plant : Plant) (d : Declarations) (excluded : List String)
    (s : Session Workshop) :
    Stops (buildComponents plant d excluded) s ↔
      ∃ c ∈ d.styled, excluded.contains c.name = false ∧
        plant.Clash c.template (Component.started c) := by
  unfold buildComponents
  refine Work.stops_foldlM_iff (fun c _ state s => ?_) _ s
  obtain ⟨arena, skipped⟩ := state
  dsimp only
  cases hex : excluded.contains c.name with
  | true => simp
  | false =>
      simp only [Bool.false_eq_true, if_false, true_and]
      rw [Work.stops_bind_of_neverStops, Component.stops_build?]
      intro c?
      cases c? <;> exact Work.neverStops_pure _

end Restyle.Conversion
