import Restyle.Conversion.Run
import Restyle.Proofs.Building
import Restyle.Proofs.Lowering

/-!
# Entries behind selectors

The selectors and element rules of a component name further entries of it by their keys.  A component is
backed if all of these entries exist.  Every step that names an entry adds it first, and no step takes an
entry away; so all components are backed after they have been built and their selectors lowered.  A component
is put under the name of its declaration, and no step of building or lowering gives it another one.
-/

namespace Restyle.Component

open Restyle.Interpolation (Classified Decision Place)
open Restyle.Style (Object SlotRequest)
open Restyle.Tsx (Node)
open Work (Alike Keeps OnStores)

/-- The keys by which the selectors and rules of a component name further entries. -/
def pointers (c : Component) : List String :=
  c.attributeSelectors.map (·.styleKey) ++ c.siblingSelectors.map (·.styleKey) ++
    c.elementRules.map (·.styleKey)

/-- Every further entry that a selector or a rule names exists. -/
def Backed (c : Component) : Prop :=
  ∀ key ∈ c.pointers, key ∈ c.extraStyles.names

theorem mem_names_addExtra (c : Component) (key : String) (styles : Object) (other : String) :
    other ∈ (c.addExtra key styles).extraStyles.names ↔ other = key ∨ other ∈ c.extraStyles.names := by
  unfold addExtra
  split
  · exact Table.mem_names_set _ _ _ _
  · exact Table.mem_names_set _ _ _ _

/-- Adding an entry leaves the selectors and rules alone. -/
theorem addExtra_frame (c : Component) (key : String) (styles : Object) :
    (c.addExtra key styles).attributeSelectors = c.attributeSelectors ∧
      (c.addExtra key styles).siblingSelectors = c.siblingSelectors ∧
      (c.addExtra key styles).elementRules = c.elementRules := by
  unfold addExtra
  split <;> exact ⟨rfl, rfl, rfl⟩

/-- A backed component stays so when an entry is added and named. -/
theorem Backed.pointTo {c c' : Component} (h : c.Backed) (key : String) (styles : Object)
    (hextras : c'.extraStyles = (c.addExtra key styles).extraStyles)
    (hpointers : ∀ other ∈ c'.pointers, other ∈ c.pointers ∨ other = key) : c'.Backed := by
  intro other hother
  rw [hextras, mem_names_addExtra]
  rcases hpointers other hother with hold | heq
  · exact .inr (h other hold)
  · exact .inl heq

theorem Backed.addRule {c : Component} (h : c.Backed) (styles : Object) (rule : ElementRule) :
    Backed { c.addExtra rule.styleKey styles with
      elementRules := (c.addExtra rule.styleKey styles).elementRules ++ [rule] } := by
  obtain ⟨hattributes, hsiblings, hrules⟩ := addExtra_frame c rule.styleKey styles
  refine h.pointTo rule.styleKey styles rfl fun other hother => ?_
  simp only [pointers, hattributes, hsiblings, hrules, List.map_append, List.mem_append,
    List.map_cons, List.map_nil, List.mem_singleton] at hother ⊢
  rcases hother with (hother | hother) | hother | hother
  · exact .inl (.inl (.inl hother))
  · exact .inl (.inl (.inr hother))
  · exact .inl (.inr hother)
  · exact .inr hother

theorem Backed.addAttribute {c : Component} (h : c.Backed) (styles : Object)
    (selector : AttributeSelector) :
    Backed { c.addExtra selector.styleKey styles with
      attributeSelectors := (c.addExtra selector.styleKey styles).attributeSelectors ++ [selector] } := by
  obtain ⟨hattributes, hsiblings, hrules⟩ := addExtra_frame c selector.styleKey styles
  refine h.pointTo selector.styleKey styles rfl fun other hother => ?_
  simp only [pointers, hattributes, hsiblings, hrules, List.map_append, List.mem_append,
    List.map_cons, List.map_nil, List.mem_singleton] at hother ⊢
  rcases hother with ((hother | hother) | hother) | hother
  · exact .inl (.inl (.inl hother))
  · exact .inr hother
  · exact .inl (.inl (.inr hother))
  · exact .inl (.inr hother)

theorem Backed.addSibling {c : Component} (h : c.Backed) (styles : Object)
    (selector : SiblingSelector) :
    Backed { c.addExtra selector.styleKey styles with
      siblingSelectors := (c.addExtra selector.styleKey styles).siblingSelectors ++ [selector] } := by
  obtain ⟨hattributes, hsiblings, hrules⟩ := addExtra_frame c selector.styleKey styles
  refine h.pointTo selector.styleKey styles rfl fun other hother => ?_
  simp only [pointers, hattributes, hsiblings, hrules, List.map_append, List.mem_append,
    List.map_cons, List.map_nil, List.mem_singleton] at hother ⊢
  rcases hother with (hother | hother | hother) | hother
  · exact .inl (.inl (.inl hother))
  · exact .inl (.inl (.inr hother))
  · exact .inr hother
  · exact .inl (.inr hother)

/-! ## Building -/

/-- A component with the same name, further entries, selectors, rules and custom properties elsewhere. -/
structure Framed (c c' : Component) : Prop where
  name : c'.name = c.name
  extraStyles : c'.extraStyles = c.extraStyles
  pointers : c'.pointers = c.pointers
  injections : c'.injections = c.injections

/-- A property that rests on the parts of a component that building leaves alone. -/
def Steady (P : Component → Prop) : Prop :=
  ∀ c c', Framed c c' → P c → P c'

theorem steady_backed : Steady Backed := by
  intro c c' h hbacked
  unfold Backed
  rw [h.pointers, h.extraStyles]
  exact hbacked

theorem steady_name (name : String) : Steady fun c => c.name = name :=
  fun _ _ h hname => h.name.trans hname

theorem steady_injections : Steady fun c => c.injections = [] :=
  fun _ _ h hnone => h.injections.trans hnone

theorem framed_record (c : Component) (d : Decision) (classified : Classified) (place : Place) :
    Framed c (c.record d classified place).component := by
  obtain ⟨_, _, _, _, _, hframe⟩ := record_frame c d classified place
  rw [hframe]
  exact ⟨rfl, rfl, rfl, rfl⟩

section

variable {P : Session Workshop → Prop}

/-- Reading fixed attributes keeps what reports and further attributes keep. -/
theorem keeps_readAttributes (hreport : ∀ kind details, Keeps P (Building.report kind details))
    (hchange : ∀ key text, Keeps P
      (Building.change fun c => { c with staticAttrs := c.staticAttrs.set key text })) (node : Node) :
    Keeps P (Component.readAttributes node) := by
  unfold Component.readAttributes
  dsimp only
  split
  · exact hreport _ _
  · refine (Keeps.forIn _ (fun entry _ _ => ?_) _).bind fun _ => Keeps.pure _
    obtain ⟨key, value⟩ := entry
    dsimp only
    split
    · exact (hreport _ _).bind fun _ => Keeps.pure _
    · exact (hchange _ _).bind fun _ => Keeps.pure _

theorem keeps_readConfig (hreport : ∀ kind details, Keeps P (Building.report kind details))
    (htested : Keeps P (Building.change fun c => { c with hasForwardTest := true }))
    (hnames : ∀ names, Keeps P (Building.change fun c => { c with heldBack := names })) (node : Node) :
    Keeps P (Component.readConfig node) := by
  unfold Component.readConfig
  split
  · exact Keeps.pure _
  · refine htested.bind fun _ => ?_
    split
    · exact hreport _ _
    · exact hnames _

theorem keeps_forM_option {α : Type} (x : Option α) {f : α → Building PUnit} (h : ∀ a, Keeps P (f a)) :
    Keeps P (x.forM f) := by
  cases x with
  | none => exact Keeps.pure _
  | some a => exact h a

end

/-- A component that differs from another one at most in the attributes and the props that it passes on. -/
def PassesApart (c c' : Component) : Prop :=
  ∃ attrs tested names props, c' = { c with
    staticAttrs := attrs, hasForwardTest := tested, heldBack := names, transientProps := props }

/-- Building converts the template; what comes after the styles reports and decides what the component passes on. -/
theorem exists_converted_of_build? {plant : Plant} {d : Module.StyledDeclaration} {c : Component}
    {s s' : Session Workshop} (h : (build? plant d).run s = (.ok (some c), s')) :
    ∃ styles t, (convertTemplate? plant d.template).run { s with store := { s.store with component := started d } } =
        (.ok (some styles), t) ∧ c = s'.store.component ∧
      ∀ P : Session Workshop → Prop, (∀ kind details, Keeps P (Building.report kind details)) →
        (∀ f : Component → Component, (∀ c, PassesApart c (f c)) → Keeps P (Building.change f)) →
        P ((Building.change fun c => { c with styles }.fillVariantDefaults).run t).2 → P s' := by
  unfold build? at h
  rw [run_starting] at h
  obtain ⟨styles?, t, hconvert, h⟩ := Work.run_bind_eq_ok h
  cases styles? with
  | none => cases h
  | some styles =>
      obtain ⟨_, s₂, hstyles, h⟩ := Work.run_bind_eq_ok h
      obtain ⟨_, s₃, hattrs, h⟩ := Work.run_bind_eq_ok h
      obtain ⟨_, s₄, hconfig, h⟩ := Work.run_bind_eq_ok h
      obtain ⟨_, s₅, hdollars, h⟩ := Work.run_bind_eq_ok h
      cases h
      refine ⟨styles, t, hconvert, rfl, fun P hreport hchange h₂ => ?_⟩
      rw [hstyles] at h₂
      have h₃ : P s₃ := Keeps.of_run (keeps_forM_option d.attrs (keeps_readAttributes hreport fun _ _ =>
        hchange _ fun _ => ⟨_, _, _, _, rfl⟩)) hattrs h₂
      have h₄ : P s₄ := Keeps.of_run (keeps_forM_option d.config (keeps_readConfig hreport
        (hchange _ fun _ => ⟨_, _, _, _, rfl⟩) fun _ => hchange _ fun _ => ⟨_, _, _, _, rfl⟩)) hconfig h₃
      exact Keeps.of_run (hchange _ fun _ => ⟨_, _, _, _, rfl⟩) hdollars h₄

/-- Work that keeps a property of the component under construction. -/
def KeepsComponent (P : Component → Prop) {α : Type} (work : Building α) : Prop :=
  Keeps (fun s => P s.store.component) work

section

variable {P : Component → Prop}

/-- The same component is under construction in two workshops, and it has a property. -/
def Both (P : Component → Prop) (w w' : Workshop) : Prop :=
  w.component = w'.component ∧ P w.component

/-- A slot that keeps the property leaves the workshops with the same component. -/
theorem alike_slot_both {plant : Plant} {template : Css.Template Node} {request : SlotRequest}
    (h : KeepsComponent P (resolveSlot plant template request)) : Alike (OnStores (Both P))
      (resolveSlot plant template request) (resolveSlot plant template request) := by
  rintro s t ⟨⟨hcomponent, hs⟩, himportant⟩
  have hkept := h s hs
  cases hslot : template.slot? request.index with
  | none =>
      unfold resolveSlot
      rw [hslot]
      exact ⟨rfl, ⟨hcomponent, hs⟩, himportant⟩
  | some slot =>
      obtain ⟨d, hrun⟩ := run_resolveSlot plant template request hslot s
      obtain ⟨d', hrun'⟩ := run_resolveSlot plant template request hslot t
      have hdecide := (Interpolation.constant_decide plant.env (plant.classified slot request)
        (s.store.component.placeOf request)).run_fst_eq s.store.traces t.store.traces
      rw [hrun] at hkept
      rw [hrun, hrun', ← hcomponent]
      cases h : (Interpolation.decide plant.env (plant.classified slot request)
          (s.store.component.placeOf request)).run s.store.traces with
      | mk result traces =>
          cases h' : (Interpolation.decide plant.env (plant.classified slot request)
              (s.store.component.placeOf request)).run t.store.traces with
          | mk result' traces' =>
              rw [h, h'] at hdecide
              rw [h] at hkept
              cases hdecide
              cases result with
              | error f => exact ⟨rfl, ⟨hcomponent, hs⟩, himportant⟩
              | ok decision => exact ⟨rfl, ⟨rfl, hkept⟩, himportant⟩

theorem alike_selector_both (plant : Plant) (template : Css.Template Node) (index : Nat) :
    Alike (OnStores (Both P)) (resolveSelector plant template index)
      (resolveSelector plant template index) := by
  intro s t hst
  obtain ⟨text, hquiet⟩ := exists_quiet_resolveSelector plant template index
  obtain ⟨d, e, hs⟩ := hquiet s
  obtain ⟨d', e', ht⟩ := hquiet t
  rw [hs, ht]
  exact ⟨rfl, hst⟩

end

/-- What may be decided about a slot, whatever was asked before. -/
def Decides (env : Interpolation.Environment) (classified : Classified) (place : Place) (d : Decision) : Prop :=
  ∃ t t', (Interpolation.decide env classified place).run t = (.ok d, t')

namespace KeepsComponent

variable {α β : Type} {P : Component → Prop}

theorem pure (a : α) : KeepsComponent P (Pure.pure a) :=
  Keeps.pure a

theorem bind {work : Building α} {next : α → Building β} (hw : KeepsComponent P work)
    (hn : ∀ a, KeepsComponent P (next a)) : KeepsComponent P (work >>= next) :=
  Keeps.bind hw hn

theorem forIn {f : α → β → Building (ForInStep β)} (xs : List α)
    (h : ∀ x b, KeepsComponent P (f x b)) (b : β) : KeepsComponent P (ForIn.forIn xs b f) :=
  Keeps.forIn xs (fun x _ b => h x b) b

theorem report (kind : DiagnosticKind) (details : List (String × Data)) :
    KeepsComponent P (Building.report kind details) :=
  fun _ h => h

theorem trace (f : Trace → Trace) : KeepsComponent P (Work.trace f) :=
  fun _ h => h

theorem component : KeepsComponent P Building.component :=
  fun _ h => h

theorem change {f : Component → Component} (h : ∀ c, P c → P (f c)) : KeepsComponent P (Building.change f) :=
  fun s hs => h s.store.component hs

theorem withImportant {work : Building Object} (h : KeepsComponent P work) :
    KeepsComponent P (Style.withImportant work) := by
  intro s hs
  have hkept := h { s with important := [] } hs
  rw [run_withImportant]
  cases hrun : work.run { s with important := [] } with
  | mk result s' =>
      rw [hrun] at hkept
      cases result with
      | ok styles => exact hkept
      | error f => exact hkept

/-- A slot keeps a property of the component if recording what may be decided about it does. -/
theorem resolveSlot {plant : Plant} {template : Css.Template Node} {request : SlotRequest}
    (h : ∀ c slot d, template.slot? request.index = some slot →
      Decides plant.env (plant.classified slot request) (c.placeOf request) d → P c →
        P (c.record d (plant.classified slot request) (c.placeOf request)).component) :
    KeepsComponent P (Component.resolveSlot plant template request) := by
  intro s hs
  cases hslot : template.slot? request.index with
  | none =>
      unfold Component.resolveSlot
      rw [hslot]
      exact hs
  | some slot =>
      obtain ⟨diagnostics, hrun⟩ := run_resolveSlot plant template request hslot s
      rw [hrun]
      cases hdecide : (Interpolation.decide plant.env (plant.classified slot request)
          (s.store.component.placeOf request)).run s.store.traces with
      | mk result traces =>
          cases result with
          | error f => exact hs
          | ok decision => exact h _ slot decision hslot ⟨_, _, hdecide⟩ hs

/-- Converting a rule keeps what answering the slots of the template keeps. -/
theorem convert {plant : Plant} {template : Css.Template Node}
    (hslot : ∀ request, KeepsComponent P (Component.resolveSlot plant template request))
    (location : Option Location) (rule : Css.Rule) :
    KeepsComponent P (Style.convert (resolverFor plant template location) rule) := by
  intro s hs
  have halike := Style.alike_convert (Work.oblivious_onStores (Both P))
    (r := resolverFor plant template location) (q := resolverFor plant template location)
    (alike_selector_both plant template) rule fun request _ => alike_slot_both (hslot request)
  exact (halike s s ⟨⟨rfl, hs⟩, rfl⟩).2.1.2

theorem convertTemplate? {plant : Plant} {parts : Module.TemplateParts}
    (himportant : ∀ c names, P c → P { c with important := names })
    (hslot : ∀ template request, Css.Template.read parts.segments parts.expressions = .ok template →
      KeepsComponent P (Component.resolveSlot plant template request)) :
    KeepsComponent P (Component.convertTemplate? plant parts) := by
  rw [convertTemplate?_eq]
  unfold readTemplate?
  cases hread : Css.Template.read parts.segments parts.expressions with
  | error e =>
      simp only [bind_assoc, pure_bind]
      exact (report _ _).bind fun _ => pure _
  | ok template =>
      simp only [pure_bind]
      refine (forIn _ (fun index _ => ?_) _).bind fun _ => component.bind fun c => ?_
      · exact (report _ _).bind fun _ => pure _
      refine (withImportant (convert (fun request => hslot template request hread) c.location template.root)).bind ?_
      rintro ⟨styles, important⟩
      refine bind (change fun c => himportant c _) fun _ => (forIn _ (fun property _ => ?_) _).bind fun _ => pure _
      exact (trace _).bind fun _ => pure _

end KeepsComponent

/-- A property that outlives what building does to a component besides recording decisions. -/
structure Outlasts (P : Component → Prop) : Prop where
  important : ∀ c names, P c → P { c with important := names }
  styles : ∀ (c : Component) styles, P c → P { c with styles }.fillVariantDefaults
  passing : ∀ c c', PassesApart c c' → P c → P c'

theorem Steady.outlasts {P : Component → Prop} (hP : Steady P) : Outlasts P where
  important c _ := hP c _ ⟨rfl, rfl, rfl, rfl⟩
  styles c _ := hP c _ ⟨rfl, rfl, rfl, rfl⟩
  passing := by
    rintro c _ ⟨_, _, _, _, rfl⟩
    exact hP c _ ⟨rfl, rfl, rfl, rfl⟩

/-- A component that has been built has the properties that it was started with and that its slots keep. -/
theorem Outlasts.of_build? {P : Component → Prop} (hP : Outlasts P) {plant : Plant} {d : Module.StyledDeclaration}
    (hslot : ∀ template request, Css.Template.read d.template.segments d.template.expressions = .ok template →
      KeepsComponent P (resolveSlot plant template request))
    {c : Component} {s s' : Session Workshop} (h : (build? plant d).run s = (.ok (some c), s'))
    (hstart : P (started d)) : P c := by
  obtain ⟨styles, t, hconvert, rfl, hrest⟩ := exists_converted_of_build? h
  refine hrest (fun s => P s.store.component) (fun _ _ _ hs => hs)
    (fun f hf s hs => hP.passing _ _ (hf s.store.component) hs) (hP.styles _ _ ?_)
  exact Keeps.of_run (KeepsComponent.convertTemplate? hP.important hslot) hconvert hstart

/-- A component that has been built has the steady properties that it was started with. -/
theorem of_build? {P : Component → Prop} (hP : Steady P) {plant : Plant} {d : Module.StyledDeclaration}
    {c : Component} {s s' : Session Workshop} (h : (build? plant d).run s = (.ok (some c), s'))
    (hstart : P (started d)) : P c :=
  hP.outlasts.of_build? (fun _ _ _ => KeepsComponent.resolveSlot fun _ _ _ _ _ =>
    hP _ _ (framed_record _ _ _ _)) h hstart

/-- A component that has been built is backed. -/
theorem backed_build? {plant : Plant} {d : Module.StyledDeclaration} {c : Component}
    {s s' : Session Workshop} (h : (build? plant d).run s = (.ok (some c), s')) : c.Backed :=
  of_build? steady_backed h nofun

/-- A component that has been built has the name of its declaration. -/
theorem name_build? {plant : Plant} {d : Module.StyledDeclaration} {c : Component}
    {s s' : Session Workshop} (h : (build? plant d).run s = (.ok (some c), s')) : c.name = d.name :=
  of_build? (steady_name d.name) h rfl

end Restyle.Component

namespace Restyle.Conversion

open Restyle.Component (Plant)
open Restyle.Module (Declarations)

/-- What holds of every component that is built from a declaration holds of all components of a module. -/
theorem all_buildComponents {plant : Plant} {d : Declarations} {excluded : List String} {P : Component → Prop}
    (hP : ∀ declaration ∈ d.styled, ∀ c (s s' : Session Component.Workshop),
      (Component.build? plant declaration).run s = (.ok (some c), s') → P c)
    {built : Arena × List String} {s s' : Session Component.Workshop}
    (h : (buildComponents plant d excluded).run s = (.ok built, s')) : built.1.All P := by
  refine Work.foldlM_keeps (P := fun built : Arena × List String => built.1.All P) ?_ ?_ h
  case refine_2 => exact List.forall_mem_nil _
  rintro declaration hdeclaration ⟨arena, skipped⟩ s built s' hkept hrun
  dsimp only at hrun
  split at hrun
  · cases hrun
    exact hkept
  · obtain ⟨c?, s₁, hbuild, hrun⟩ := Work.run_bind_eq_ok hrun
    cases c? with
    | none =>
        cases hrun
        exact hkept
    | some c =>
        cases hrun
        exact Table.All.set hkept _ (hP declaration hdeclaration c _ _ hbuild)

/-- All components that have been built are backed. -/
theorem backed_buildComponents {plant : Plant} {d : Declarations} {excluded : List String}
    {built : Arena × List String} {s s' : Session Component.Workshop}
    (h : (buildComponents plant d excluded).run s = (.ok built, s')) :
    built.1.All Component.Backed :=
  all_buildComponents (fun _ _ _ _ _ hbuild => Component.backed_build? hbuild) h

end Restyle.Conversion

namespace Restyle.Lowering

open Restyle.Style (Key Object)
open Work (Keeps)

/-! ## Lowering -/

/-- A pass that leaves every component backed. -/
def Backs (pass : Pass) : Prop :=
  ∀ settings arena c selector body lowered, c.Backed →
    pass.lower? settings arena c selector body = some lowered → lowered.component.Backed

/-- A component stays backed when a selector of it is lowered. -/
theorem Reworked.backed {c d : Component} {selector : String} {body : Object} (h : Reworked c selector body d)
    (hbacked : c.Backed) : d.Backed := by
  cases h with
  | same => exact hbacked
  | child kind ending => exact hbacked.addRule body { kind, styleKey := c.styleKey ++ ending }
  | inside settings arena pseudo target entries =>
      exact hbacked.addRule entries { kind := .descendantComponent, styleKey := _, target := some target }
  | tested t =>
      exact hbacked.addAttribute _
        { styleKey := _
          attr := t.attr
          operator := t.operator
          value := t.value
          pseudoElement := t.element }
  | sibling relation ending className =>
      have hmarked : Component.Backed { c with hasSiblingPattern := true } := hbacked
      exact hmarked.addSibling body
        { styleKey := _, relation := relation, propName := "is" ++ ending, className := className }
  | marked =>
      obtain ⟨styles, hmarked⟩ :=
        addMarkerValues_component selector body { component := { c with hasSiblingPattern := true } }
      rw [hmarked]
      exact hbacked
  | raised => exact hbacked
  | @bridged name pseudo parent =>
      obtain ⟨styles, injections, hbridged⟩ := bridgeEntries_component parent pseudo selector body { component := c }
      rw [hbridged]
      exact hbacked

theorem backs_of_mem {pass : Pass} (hpass : pass ∈ allPasses) : Backs pass :=
  fun _ _ _ _ _ _ hbacked h => (reworked_of_lower hpass h).backed hbacked

/-- A property that outlives what lowering does to a component. -/
structure Outlasts (P : Component → Prop) : Prop where
  lowers : ∀ pass ∈ allPasses, ∀ settings arena c selector body lowered, P c →
    pass.lower? settings arena c selector body = some lowered → P lowered.component
  styles : ∀ (c : Component) styles, P c → P { c with styles }

/-- A pass keeps what its last step does not touch. -/
theorem Outlasts.keeps_run {P : Component → Prop} (h : Outlasts P) {pass : Pass} (hpass : pass ∈ allPasses)
    (settings : Settings) : Keeps (fun s => s.store.All P) (pass.run settings) := by
  refine keeps_run_of_mem hpass (P := fun arena => arena.All P) ?_ ?_ ?_
  · intro arena name c selector body lowered harena hc hlower
    exact harena.set name (h.lowers pass hpass _ _ _ _ _ _ (harena.of_get? hc) hlower)
  · intro arena name selectors harena
    exact harena.modify name fun c hc => h.styles c _ hc
  · intro arena name c key value harena hc
    exact Table.All.set harena name (h.styles c _ (harena.of_get? hc))

/-- Lowering keeps what it does not touch in all components. -/
theorem Outlasts.keeps_lowerAll {P : Component → Prop} (h : Outlasts P) (settings : Settings) :
    Keeps (fun s => s.store.All P) (lowerAll settings) := by
  refine Lowering.keeps_lowerAll (P := fun arena => arena.All P)
    (fun pass hpass => h.keeps_run hpass settings) ?_
  intro arena name selectors harena
  exact harena.modify name fun c hc => h.styles c _ hc

/-- Lowering keeps all components backed. -/
theorem keeps_backed_lowerAll (settings : Settings) :
    Keeps (fun s => s.store.All Component.Backed) (lowerAll settings) :=
  Outlasts.keeps_lowerAll ⟨fun _ hpass _ _ _ _ _ _ hc hlower => backs_of_mem hpass _ _ _ _ _ _ hc hlower,
    fun _ _ hc => hc⟩ settings

end Restyle.Lowering

namespace Restyle.Conversion

open Restyle.Component (Plant)
open Restyle.Module (Declarations)

/-- Components that have been built, and whose selectors have been lowered. -/
inductive Prepared : Arena → Prop where
  | lowered {plant : Plant} {d : Declarations} {excluded : List String}
      {settings : Lowering.Settings} {built : Arena × List String}
      {s s' : Session Component.Workshop} {t t' : Session Arena} :
      (buildComponents plant d excluded).run s = (.ok built, s') → t.store = built.1 →
      (Lowering.lowerAll settings).run t = (.ok (), t') → Prepared t'.store

/-- Every selector and rule of a prepared component names an entry of it. -/
theorem Prepared.backed {arena : Arena} (h : Prepared arena) : arena.All Component.Backed := by
  cases h with
  | @lowered _ _ _ settings built _ _ t _ hbuild hstore hlower =>
      have hbuilt : t.store.All Component.Backed := by
        rw [hstore]
        exact backed_buildComponents hbuild
      have hkept := Lowering.keeps_backed_lowerAll settings t hbuilt
      rw [hlower] at hkept
      exact hkept

end Restyle.Conversion

/-! ## Components under their own names -/

namespace Restyle

/-- Components are found under their own names. -/
def Named (arena : Arena) : Prop :=
  ∀ name c, arena.get? name = some c → c.name = name

theorem Named.set {arena : Arena} (h : Named arena) {name : String} {c : Component} (hc : c.name = name) :
    Named (arena.set name c) := by
  intro other c' hc'
  by_cases hname : name = other
  · subst hname
    rw [Table.get?_set_self] at hc'
    cases hc'
    exact hc
  · rw [Table.get?_set_of_ne _ _ hname] at hc'
    exact h other c' hc'

theorem Named.modify {arena : Arena} (h : Named arena) (name : String) {f : Component → Component}
    (hf : ∀ c, (f c).name = c.name) : Named (Table.modify arena name f) := by
  intro other c hc
  by_cases hname : name = other
  · subst hname
    rw [Table.get?_modify_self] at hc
    obtain ⟨original, horiginal, rfl⟩ := Option.map_eq_some_iff.mp hc
    exact (hf original).trans (h name original horiginal)
  · rw [Table.get?_modify_of_ne _ _ hname] at hc
    exact h other c hc

namespace Lowering

open Restyle.Style (Object)
open Work (Keeps)

/-- A pass that gives no component another name. -/
def Names (pass : Pass) : Prop :=
  ∀ settings arena c selector body lowered,
    pass.lower? settings arena c selector body = some lowered → lowered.component.name = c.name

theorem name_addExtra (c : Component) (key : String) (styles : Object) : (c.addExtra key styles).name = c.name := by
  unfold Component.addExtra
  split <;> rfl

/-- A component keeps its name when a selector of it is lowered. -/
theorem Reworked.name {c d : Component} {selector : String} {body : Object} (h : Reworked c selector body d) :
    d.name = c.name := by
  cases h with
  | same | raised => rfl
  | child | inside | tested | sibling => exact name_addExtra _ _ _
  | marked =>
      obtain ⟨styles, hmarked⟩ :=
        addMarkerValues_component selector body { component := { c with hasSiblingPattern := true } }
      rw [hmarked]
  | @bridged name pseudo parent =>
      obtain ⟨styles, injections, hbridged⟩ := bridgeEntries_component parent pseudo selector body { component := c }
      rw [hbridged]

theorem names_of_mem {pass : Pass} (hpass : pass ∈ allPasses) : Names pass :=
  fun _ _ _ _ _ _ h => (reworked_of_lower hpass h).name

theorem keeps_named_run {pass : Pass} (hpass : pass ∈ allPasses) (settings : Settings) :
    Keeps (fun s => Named s.store) (pass.run settings) := by
  refine keeps_run_of_mem hpass (P := Named) ?_ ?_ ?_
  · intro arena name c selector body lowered h hc hlower
    exact h.set ((names_of_mem hpass _ _ _ _ _ _ hlower).trans (h name c hc))
  · intro arena name selectors h
    exact h.modify name fun _ => rfl
  · intro arena name c key value h hc
    exact h.set (c := c.setStyle key value) (h name c hc)

/-- Lowering keeps all components under their own names. -/
theorem keeps_named_lowerAll (settings : Settings) : Keeps (fun s => Named s.store) (lowerAll settings) := by
  refine keeps_lowerAll (P := Named) (fun pass hpass => keeps_named_run hpass settings) ?_
  intro arena name selectors h
  exact h.modify name fun _ => rfl

end Lowering

namespace Conversion

open Restyle.Component (Plant)
open Restyle.Module (Declarations)

theorem named_buildComponents {plant : Plant} {d : Declarations} {excluded : List String}
    {built : Arena × List String} {s s' : Session Component.Workshop}
    (h : (buildComponents plant d excluded).run s = (.ok built, s')) : Named built.1 := by
  refine Work.foldlM_keeps (P := fun built : Arena × List String => Named built.1) ?_ ?_ h
  case refine_2 =>
    intro name c hc
    rw [Table.get?] at hc
    cases hc
  rintro declaration - ⟨arena, skipped⟩ s built s' hkept hrun
  dsimp only at hrun
  split at hrun
  · cases hrun
    exact hkept
  · obtain ⟨c?, s₁, hbuild, hrun⟩ := Work.run_bind_eq_ok hrun
    cases c? with
    | none =>
        cases hrun
        exact hkept
    | some c =>
        cases hrun
        exact Named.set hkept (Component.name_build? hbuild)

theorem named_buildParts {plant : Plant} {d : Declarations} {excluded : List String} {parts : Parts}
    {s s' : Session (List Message)} (h : (buildParts plant d excluded).run s = (.ok parts, s')) :
    Named parts.arena := by
  obtain ⟨⟨helpers, workshop⟩, s₁, -, h⟩ := Work.run_bind_eq_ok h
  obtain ⟨⟨⟨arena, skipped⟩, workshop'⟩, s₂, hrun, h⟩ := Work.run_bind_eq_ok h
  cases h
  obtain ⟨s₃, s₄, -, hrun⟩ := Work.run_phase_eq_ok hrun
  obtain ⟨s₅, s₆, -, -, hrun⟩ := Work.run_on_eq_ok hrun
  exact named_buildComponents hrun

end Conversion

end Restyle
