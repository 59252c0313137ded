import Restyle.Component.Build
import Restyle.Proofs.Collision
import Restyle.Proofs.Decision

/-!
# Building from templates

While a template is converted, the component under construction keeps its name, and the answers to the
slots depend on nothing else of it.  So whether the conversion of a template breaks off can be told from
the template and the name alone.
-/

namespace Restyle.Component

open Restyle.Interpolation (Branch Classified Decision Place Traces)
open Restyle.Style (Answers Object SlotAnswer SlotRequest)
open Restyle.Tsx (Node)
open Work (Alike OnStores Stops)

/-! ## What a recorded decision changes -/

theorem addPropDependencies_frame (c : Component) (props : List String) :
    ∃ deps, c.addPropDependencies props = { c with propDependencies := deps } := by
  unfold addPropDependencies
  induction props generalizing c with
  | nil => exact ⟨c.propDependencies, rfl⟩
  | cons p props ih =>
      rw [List.foldl_cons]
      split
      · exact ih c
      · obtain ⟨deps, h⟩ := ih { c with propDependencies := c.propDependencies ++ [p] }
        exact ⟨deps, h⟩

/-- Recording a decision only adds to what depends on props and to the references. -/
theorem record_frame (c : Component) (d : Decision) (classified : Classified) (place : Place) :
    ∃ variants entries inline refs deps, (c.record d classified place).component =
      { c with
        variants := variants
        dynamicEntries := entries
        inlineStyles := inline
        mixinRefs := refs
        propDependencies := deps } := by
  cases d with
  | convert value =>
      have h : (c.record (.convert value) classified place).component = c := by
        unfold record
        dsimp only
        split
        · split <;> rfl
        · rfl
      exact ⟨_, _, _, _, _, h⟩
  | reference code =>
      unfold record
      dsimp only
      split <;> exact ⟨_, _, _, _, _, rfl⟩
  | variant prop comparison base branches =>
      obtain ⟨deps, h⟩ := addPropDependencies_frame
        { c with variants := branches.foldl addBranch c.variants } [prop]
      exact ⟨_, _, _, _, deps, h⟩
  | dynamic v =>
      obtain ⟨deps, h⟩ := addPropDependencies_frame
        { c with dynamicEntries := c.dynamicEntries ++ [dynamicEntry c v place] }
        [(dynamicEntry c v place).propName]
      exact ⟨_, _, _, _, deps, h⟩
  | bail reason props inline =>
      unfold record recordBail
      dsimp only
      split
      · exact ⟨_, _, _, _, _, rfl⟩
      split
      · exact ⟨_, _, _, _, _, rfl⟩
      · split
        · exact ⟨_, _, _, _, _, rfl⟩
        · obtain ⟨deps, h⟩ := addPropDependencies_frame { c with inlineStyles := _ } props
          exact ⟨_, _, _, _, deps, h⟩

/-- What is put into the place of a slot depends on the decision and the place only. -/
theorem record_reply (c c' : Component) (d : Decision) (classified : Classified) (place : Place) :
    (c.record d classified place).reply = (c'.record d classified place).reply := by
  cases d with
  | convert value =>
      unfold record
      dsimp only
      split
      · split <;> rfl
      · rfl
  | reference code =>
      unfold record
      dsimp only
      split <;> split <;> rfl
  | variant prop comparison base branches => rfl
  | dynamic v => rfl
  | bail reason props inline =>
      unfold record recordBail
      dsimp only
      split
      · rfl
      split
      · rfl
      · split <;> rfl

/-! ## Answering the slots of a template -/

/-- The place of a slot of a component. -/
def placeOf (c : Component) (request : SlotRequest) : Place :=
  { component := c.name, styleKey := c.styleKey, request, location := c.location }

namespace Building

theorem run_component (s : Session Workshop) :
    component.run s = (.ok s.store.component, s) := rfl

theorem run_change (f : Component → Component) (s : Session Workshop) :
    (change f).run s =
      (.ok (), { s with store := { s.store with component := f s.store.component } }) := rfl

theorem run_deciding {α : Type} (work : Interpolation.Deciding α) (s : Session Workshop) :
    (deciding work).run s =
      match work.run s.store.traces with
      | (result, traces) => (result, { s with store := { s.store with traces := traces } }) := by
  unfold deciding
  rw [Work.run_bind_ok _ (Work.run_store s)]
  cases work.run s.store.traces with
  | mk result traces => cases result <;> rfl

end Building

/-- How the slot of a request is classified. -/
def Plant.classified (plant : Plant) (slot : Css.PlacedSlot Node) (request : SlotRequest) :
    Classified :=
  Interpolation.classify plant.env.around request.index slot.expression

/-- Records a decision on the component under construction, with its trace and its reports. -/
def noteDecision (classified : Classified) (request : SlotRequest) (c : Component)
    (decision : Decision) : Building SlotAnswer := do
  Work.trace (·.decision c.name classified.index classified.tag.text decision.action)
  let recorded := c.record decision classified (c.placeOf request)
  Building.change fun _ => recorded.component
  for kind in recorded.reports do
    let property := if request.property.isEmpty then Data.null else .str request.property
    Building.report kind [("property", property), ("expression", .str classified.source)]
  return recorded.reply

theorem run_noteDecision (classified : Classified) (request : SlotRequest) (c : Component)
    (decision : Decision) (s : Session Workshop) :
    ∃ diagnostics, (noteDecision classified request c decision).run s =
      (.ok (c.record decision classified (c.placeOf request)).reply,
        { s with
          diagnostics := diagnostics
          trace := s.trace.decision c.name classified.index classified.tag.text decision.action
          store := { s.store with
            component := (c.record decision classified (c.placeOf request)).component } }) := by
  let recorded := c.record decision classified (c.placeOf request)
  let property := if request.property.isEmpty then Data.null else .str request.property
  obtain ⟨d, hreports⟩ := Work.run_forIn_reports
    (f := fun kind _ => do
      Building.report kind [("property", property), ("expression", .str classified.source)]
      pure (.yield PUnit.unit))
    recorded.reports (fun kind s => ⟨_, rfl⟩)
    { s with
      trace := s.trace.decision c.name classified.index classified.tag.text decision.action
      store := { s.store with component := recorded.component } }
  refine ⟨d, ?_⟩
  unfold noteDecision
  rw [Work.run_bind_ok _ (Work.run_trace _ s), Work.run_bind_ok _ (Building.run_change _ _),
    Work.run_bind_ok _ hreports]
  rfl

theorem resolveSlot_eq (plant : Plant) (template : Css.Template Node) (request : SlotRequest)
    {slot : Css.PlacedSlot Node} (hslot : template.slot? request.index = some slot) :
    resolveSlot plant template request =
      Building.component >>= fun c =>
        Building.deciding
          (Interpolation.decide plant.env (plant.classified slot request) (c.placeOf request)) >>=
          noteDecision (plant.classified slot request) request c := by
  unfold resolveSlot
  rw [hslot]
  rfl

/-- A slot is decided, and the decision is recorded. -/
theorem run_resolveSlot (plant : Plant) (template : Css.Template Node) (request : SlotRequest)
    {slot : Css.PlacedSlot Node} (hslot : template.slot? request.index = some slot)
    (s : Session Workshop) :
    ∃ diagnostics,
      (resolveSlot plant template request).run s =
        match (Interpolation.decide plant.env (plant.classified slot request)
            (s.store.component.placeOf request)).run s.store.traces with
        | (.error f, traces) => (.error f, { s with store := { s.store with traces := traces } })
        | (.ok decision, traces) =>
          let recorded := s.store.component.record decision (plant.classified slot request)
            (s.store.component.placeOf request)
          (.ok recorded.reply,
            { s with
              diagnostics := diagnostics
              trace := s.trace.decision s.store.component.name (plant.classified slot request).index
                (plant.classified slot request).tag.text decision.action
              store := { component := recorded.component, traces } }) := by
  rw [resolveSlot_eq plant template request hslot, Work.run_bind_ok _ (Building.run_component s)]
  have hrun := Building.run_deciding (Interpolation.decide plant.env
    (plant.classified slot request) (s.store.component.placeOf request)) s
  cases hdecide : (Interpolation.decide plant.env (plant.classified slot request)
      (s.store.component.placeOf request)).run s.store.traces with
  | mk result traces =>
      rw [hdecide] at hrun
      cases result with
      | error f => exact ⟨s.diagnostics, Work.run_bind_error _ hrun⟩
      | ok decision =>
          rw [Work.run_bind_ok _ hrun]
          exact run_noteDecision _ request s.store.component decision _

/-- Work that gives a result in any session, and changes nothing but reports and traces. -/
def Quiet {α : Type} (work : Building α) (a : α) : Prop :=
  ∀ s, ∃ d t, work.run s = (.ok a, { s with diagnostics := d, store := { s.store with traces := t } })

theorem quiet_pure {α : Type} (a : α) : Quiet (pure a) a :=
  fun s => ⟨s.diagnostics, s.store.traces, rfl⟩

theorem Quiet.bind {α β : Type} {work : Building α} {a : α} {next : α → Building β} {b : β}
    (hw : Quiet work a) (hn : Quiet (next a) b) : Quiet (work >>= next) b := by
  intro s
  obtain ⟨d, t, hrun⟩ := hw s
  obtain ⟨d', t', hrun'⟩ := hn { s with diagnostics := d, store := { s.store with traces := t } }
  exact ⟨d', t', by rw [Work.run_bind_ok _ hrun, hrun']⟩

theorem quiet_report (kind : DiagnosticKind) (details : List (String × Data)) :
    Quiet (Building.report kind details) () :=
  fun _ => ⟨_, _, rfl⟩

theorem quiet_askValue (plant : Plant) (q : Adapter.ValueQuery) :
    Quiet (Building.deciding (Interpolation.Deciding.askValue plant.env q))
      (Adapter.answer Adapter.ValueResult.ofData? (plant.env.adapter.resolveValue q)) :=
  fun s => ⟨s.diagnostics, _, rfl⟩

theorem exists_quiet_importedText? (plant : Plant) (exported source : String) :
    ∃ text, Quiet (importedText? plant exported source) text := by
  unfold importedText?
  cases hanswer : Adapter.answer Adapter.ValueResult.ofData? (plant.env.adapter.resolveValue
      { kind := .importedValue, path := exported, importSource := some source }) with
  | error e =>
      refine ⟨none, (quiet_askValue plant _).bind ?_⟩
      rw [hanswer]
      exact quiet_pure none
  | ok found =>
      cases found with
      | none =>
          refine ⟨none, (quiet_askValue plant _).bind ?_⟩
          rw [hanswer]
          exact quiet_pure none
      | some result =>
          cases hread : Tsx.readExpression result.expr with
          | error e =>
              refine ⟨none, (quiet_askValue plant _).bind ?_⟩
              rw [hanswer]
              dsimp only
              rw [hread]
              exact quiet_pure none
          | ok n =>
              refine ⟨n.literal?.bind (·.text?), (quiet_askValue plant _).bind ?_⟩
              rw [hanswer]
              dsimp only
              rw [hread]
              exact quiet_pure _

/-- The text for a slot in a selector does not depend on the component under construction. -/
theorem exists_quiet_resolveSelector (plant : Plant) (template : Css.Template Node) (index : Nat) :
    ∃ text, Quiet (resolveSelector plant template index) text := by
  unfold resolveSelector
  split
  · exact ⟨none, quiet_pure none⟩
  · dsimp only
    split
    · exact ⟨_, quiet_pure _⟩
    split
    · exact ⟨_, quiet_pure _⟩
    split
    · exact ⟨none, (quiet_report _ _).bind (quiet_pure none)⟩
    · next binding _ =>
        obtain ⟨text, htext⟩ := exists_quiet_importedText? plant _ _
        cases text with
        | none => exact ⟨none, htext.bind ((quiet_report _ _).bind (quiet_pure none))⟩
        | some text => exact ⟨some text, htext.bind (quiet_pure _)⟩

/-! ## Answers -/

/-- The answers that the slots of a template get for a component. -/
def Plant.answers (plant : Plant) (template : Css.Template Node) (c : Component) : Answers where
  slot request := ((resolveSlot plant template request).run { store := { component := c } }).1
  selector index :=
    (((resolveSelector plant template index).run { store := { component := c } }).1.toOption).join

/-- The component under construction has the name, the key and the location of a component. -/
def Named (c : Component) (w : Workshop) (_ : Unit) : Prop :=
  w.component.name = c.name ∧ w.component.styleKey = c.styleKey ∧ w.component.location = c.location

theorem named_self (c : Component) (traces : Traces) : Named c { component := c, traces } () :=
  ⟨rfl, rfl, rfl⟩

theorem Named.placeOf_eq {c : Component} {w : Workshop} (h : Named c w ()) (request : SlotRequest) :
    w.component.placeOf request = c.placeOf request := by
  unfold placeOf
  rw [h.1, h.2.1, h.2.2]

theorem Named.record {c : Component} {w : Workshop} (h : Named c w ()) (d : Decision)
    (classified : Classified) (place : Place) (traces : Traces) :
    Named c { component := (w.component.record d classified place).component, traces } () := by
  obtain ⟨_, _, _, _, _, hframe⟩ := record_frame w.component d classified place
  rw [hframe]
  exact h

/-- Answering a slot in the course of building gives the answer fixed beforehand. -/
theorem alike_slot (plant : Plant) (template : Css.Template Node) (c : Component)
    (request : SlotRequest) :
    Alike (OnStores (Named c)) (resolveSlot plant template request)
      ((plant.answers template c).resolver.slot request) := by
  intro s t hst
  have hanswer : ((plant.answers template c).resolver.slot request).run t =
      (((resolveSlot plant template request).run { store := { component := c } }).1, t) :=
    Answers.run_slot _ request t
  rw [hanswer]
  cases hslot : template.slot? request.index with
  | none =>
      unfold resolveSlot
      rw [hslot]
      exact ⟨rfl, hst⟩
  | some slot =>
      obtain ⟨d, hrun⟩ := run_resolveSlot plant template request hslot s
      obtain ⟨d', hrun'⟩ :=
        run_resolveSlot plant template request hslot { store := { component := c } }
      have hdecide := (Interpolation.constant_decide plant.env (plant.classified slot request)
        (c.placeOf request)).run_fst_eq s.store.traces {}
      rw [hrun, hrun', hst.1.placeOf_eq]
      dsimp only
      cases h : (Interpolation.decide plant.env (plant.classified slot request)
          (c.placeOf request)).run s.store.traces with
      | mk result traces =>
          cases h' : (Interpolation.decide plant.env (plant.classified slot request)
              (c.placeOf request)).run {} with
          | mk result' traces' =>
              rw [h, h'] at hdecide
              cases hdecide
              cases result with
              | error f => exact ⟨rfl, hst⟩
              | ok decision =>
                  refine ⟨?_, hst.1.record decision _ _ traces, hst.2⟩
                  exact congrArg Except.ok (record_reply _ _ _ _ _)

theorem alike_selector (plant : Plant) (template : Css.Template Node) (c : Component)
    (index : Nat) :
    Alike (OnStores (Named c)) (resolveSelector plant template index)
      ((plant.answers template c).resolver.selector index) := by
  intro s t hst
  obtain ⟨text, hquiet⟩ := exists_quiet_resolveSelector plant template index
  obtain ⟨d, e, hrun⟩ := hquiet s
  obtain ⟨d', e', hrun'⟩ := hquiet { store := { component := c } }
  have hanswer : (plant.answers template c).selector index = text := by
    show (((resolveSelector plant template index).run _).1.toOption).join = text
    rw [hrun']
    rfl
  show _ = Except.ok ((plant.answers template c).selector index) ∧ _
  rw [hrun, hanswer]
  exact ⟨rfl, hst⟩

/-! ## Templates that break off -/

/-- With a fixed answer to every slot, a conversion breaks off exactly when the rule collides. -/
theorem stops_convert_answers (a : Answers) (rule : Css.Rule) (t : Session Unit) :
    Stops (Style.convert a.resolver rule) t ↔ a.Collides {} rule := by
  unfold Style.convert
  rw [Work.stops_bind, (a.constant_convertRule {} rule).stops_iff t]
  refine Iff.trans (or_iff_left ?_) (a.rule_error_iff rule {})
  rintro ⟨raw, t', -, f, h⟩
  obtain ⟨d, hreports⟩ := Work.run_forIn_reports
    (f := fun place _ => do
      Work.report { kind := .complexSelector, location := a.resolver.location,
                    context := [("selector", .str place)] }
      pure (.yield PUnit.unit))
    (Style.flatten raw).2 (fun _ _ => ⟨_, rfl⟩) t'
  rw [Work.run_bind_ok _ hreports] at h
  cases h

/-- Resolvers that give fixed answers break off exactly when the rule collides under these. -/
theorem stops_convert {r : Style.Resolver Workshop} {a : Answers} {c : Component}
    (hslot : ∀ request, Alike (OnStores (Named c)) (r.slot request) (a.resolver.slot request))
    (hselector : ∀ index, Alike (OnStores (Named c)) (r.selector index) (a.resolver.selector index))
    (rule : Css.Rule) {s : Session Workshop} (h : Named c s.store ()) :
    Stops (Style.convert r rule) s ↔ a.Collides {} rule := by
  have halike : Alike (OnStores (Named c)) (Style.convert r rule) (Style.convert a.resolver rule) :=
    Style.alike_convert (Work.oblivious_onStores _) hselector rule fun request _ => hslot request
  exact (halike.stops_iff (t := { store := (), important := s.important }) ⟨h, rfl⟩).trans
    (stops_convert_answers _ rule _)

theorem run_withImportant {τ : Type} (work : Work τ Object) (s : Session τ) :
    (Style.withImportant work).run s =
      match work.run { s with important := [] } with
      | (.ok styles, s') => (.ok (styles, s'.important), { s' with important := s.important })
      | (.error f, s') => (.error f, s') := by
  unfold Style.withImportant
  rw [Work.run_bind_ok _ (Work.run_get s), Work.run_bind_ok _ (Work.run_modify _ s)]
  cases h : work.run { s with important := [] } with
  | mk result s' =>
      cases result with
      | ok styles =>
          rw [Work.run_bind_ok _ h]
          rfl
      | error f => rw [Work.run_bind_error _ h]

theorem stops_withImportant {τ : Type} {work : Work τ Object} {s : Session τ} :
    Stops (Style.withImportant work) s ↔ Stops work { s with important := [] } := by
  unfold Stops
  rw [run_withImportant]
  cases work.run { s with important := [] } with
  | mk result s' => cases result <;> simp

/-- The template of a component is read, and its rule collides. -/
def Plant.Clash (plant : Plant) (parts : Module.TemplateParts) (c : Component) : Prop :=
  ∃ template, Css.Template.read parts.segments parts.expressions = .ok template ∧
    (plant.answers template c).Collides {} template.root

theorem neverStops_report (kind : DiagnosticKind) (details : List (String × Data)) :
    Work.NeverStops (Building.report kind details) := by
  rintro s ⟨f, h⟩
  cases h

theorem neverStops_change (f : Component → Component) : Work.NeverStops (Building.change f) := by
  rintro s ⟨f, h⟩
  cases h

/-- Converts a template that has been read. -/
def convertRead (plant : Plant) (parts : Module.TemplateParts) (template : Css.Template Node) :
    Building (Option Object) := do
  for index in template.unplaced parts.expressions.length do
    let text := (parts.expressions[index]?.map Node.text).getD ""
    Building.report .unclassifiedInterpolation [("expression", .str text)]
  let c ← Building.component
  let resolver := resolverFor plant template c.location
  let (styles, important) ← Style.withImportant (Style.convert resolver template.root)
  Building.change fun c => { c with important := c.important ++ important }
  for property in important do
    Work.trace (·.inspection (c.name ++ "." ++ property) "stripped" "!important")
  return some styles

theorem convertTemplate?_eq (plant : Plant) (parts : Module.TemplateParts) :
    convertTemplate? plant parts = readTemplate? parts >>= fun template? =>
      match template? with
      | none => return none
      | some template => convertRead plant parts template := rfl

theorem stops_convertRead (plant : Plant) (parts : Module.TemplateParts)
    (template : Css.Template Node) (s : Session Workshop) :
    Stops (convertRead plant parts template) s ↔
      (plant.answers template s.store.component).Collides {} template.root := by
  unfold convertRead
  obtain ⟨d, hreports⟩ := Work.run_forIn_reports (τ := Workshop)
    (f := fun index _ => do
      Building.report .unclassifiedInterpolation
        [("expression", .str ((parts.expressions[index]?.map Node.text).getD ""))]
      pure (.yield PUnit.unit))
    (template.unplaced parts.expressions.length) (fun _ _ => ⟨_, rfl⟩) s
  rw [Work.stops_bind_ok hreports, Work.stops_bind_ok (Building.run_component _),
    Work.stops_bind_of_neverStops, stops_withImportant]
  · exact stops_convert (alike_slot plant template _) (alike_selector plant template _)
      template.root (named_self _ _)
  · rintro ⟨styles, important⟩
    refine (neverStops_change _).bind fun _ => ?_
    refine (Work.neverStops_forIn _ (fun _ _ => ?_) _).bind fun _ => Work.neverStops_pure _
    exact (Work.neverStops_modify _).bind fun _ => Work.neverStops_pure _

theorem stops_convertTemplate? (plant : Plant) (parts : Module.TemplateParts)
    (s : Session Workshop) :
    Stops (convertTemplate? plant parts) s ↔ plant.Clash parts s.store.component := by
  rw [convertTemplate?_eq]
  unfold readTemplate? Plant.Clash
  cases hread : Css.Template.read parts.segments parts.expressions with
  | error e =>
      simp only [bind_assoc, pure_bind, reduceCtorEq, false_and, exists_false, iff_false]
      exact ((neverStops_report _ _).bind fun _ => Work.neverStops_pure _) s
  | ok template =>
      simp only [pure_bind, Except.ok.injEq, exists_eq_left']
      exact stops_convertRead plant parts template s

/-! ## Declarations that break off -/

theorem run_starting {α : Type} (c : Component) (work : Building α) (s : Session Workshop) :
    (starting c work).run s = work.run { s with store := { s.store with component := c } } := by
  unfold starting
  rw [Work.run_bind_ok _ (Work.run_update _ s)]

theorem stops_starting {α : Type} {c : Component} {work : Building α} {s : Session Workshop} :
    Stops (starting c work) s ↔ Stops work { s with store := { s.store with component := c } } := by
  unfold Stops
  rw [run_starting]

/-- The component of a declaration before its template is looked at. -/
def started (d : Module.StyledDeclaration) : Component :=
  { name := d.name, styleKey := Style.styleKey d.name, base := d.base,
    baseIsIntrinsic := d.baseIsIntrinsic, location := some d.location,
    isExported := d.isExported, typeArguments := d.typeArguments }

theorem neverStops_readAttributes (node : Node) : Work.NeverStops (readAttributes node) := by
  unfold readAttributes
  dsimp only
  split
  · exact neverStops_report _ _
  · refine (Work.neverStops_forIn _ (fun entry _ => ?_) _).bind fun _ => Work.neverStops_pure _
    obtain ⟨key, value⟩ := entry
    dsimp only
    split
    · exact (neverStops_report _ _).bind fun _ => Work.neverStops_pure _
    · exact (neverStops_change _).bind fun _ => Work.neverStops_pure _

theorem neverStops_readConfig (node : Node) : Work.NeverStops (readConfig node) := by
  unfold readConfig
  split
  · exact Work.neverStops_pure _
  · refine (neverStops_change _).bind fun _ => ?_
    split
    · exact neverStops_report _ _
    · exact neverStops_change _

theorem neverStops_forM_option {α : Type} (x : Option α) {f : α → Building PUnit}
    (h : ∀ a, Work.NeverStops (f a)) : Work.NeverStops (x.forM f) := by
  cases x with
  | none => exact Work.neverStops_pure _
  | some a => exact h a

/-- A component breaks off exactly when its template does. -/
theorem stops_build? (plant : Plant) (d : Module.StyledDeclaration) (s : Session Workshop) :
    Stops (build? plant d) s ↔ plant.Clash d.template (started d) := by
  unfold build?
  rw [stops_starting, Work.stops_bind_of_neverStops, stops_convertTemplate?]
  · rfl
  · intro styles?
    cases styles? with
    | none => exact Work.neverStops_pure _
    | some styles =>
        refine (neverStops_change _).bind fun _ => ?_
        refine (neverStops_forM_option _ neverStops_readAttributes).bind fun _ => ?_
        refine (neverStops_forM_option _ neverStops_readConfig).bind fun _ => ?_
        refine (neverStops_change _).bind fun _ => ?_
        exact (Work.neverStops_get.bind fun _ => Work.neverStops_pure _).bind fun _ =>
          Work.neverStops_pure _

theorem neverStops_isPlain : Work.NeverStops isPlain := by
  rintro s ⟨f, h⟩
  unfold isPlain at h
  rw [Work.run_bind_ok _ (Building.run_component s)] at h
  split at h
  · cases h
  · cases h

/-- A mixin breaks off exactly when its template does. -/
theorem stops_buildMixin? (plant : Plant) (d : Module.HelperDeclaration) (s : Session Workshop) :
    Stops (buildMixin? plant d) s ↔ plant.Clash d.template (scratch d) := by
  unfold buildMixin?
  rw [stops_starting, Work.stops_bind_of_neverStops, stops_convertTemplate?]
  intro styles?
  cases styles? with
  | none => exact Work.neverStops_pure _
  | some styles =>
      refine (Work.neverStops_forIn _ (fun _ _ => ?_) _).bind fun _ => ?_
      · exact (neverStops_report _ _).bind fun _ => Work.neverStops_pure _
      · refine neverStops_isPlain.bind fun plain => ?_
        cases plain <;> exact Work.neverStops_pure _

/-- The answers for the frames of an animation, whose selectors are offsets. -/
def Plant.frameAnswers (plant : Plant) (template : Css.Template Node) (c : Component) : Answers :=
  { plant.answers template c with selector := fun _ => none }

/-- The template of an animation is read, and one of its frames collides. -/
def Plant.FrameClash (plant : Plant) (d : Module.HelperDeclaration) : Prop :=
  ∃ template, Css.Template.read d.template.segments d.template.expressions = .ok template ∧
    ∃ rule ∈ template.root.nested, (plant.frameAnswers template (scratch d)).Collides {} rule

/-- The resolver for the frames of an animation. -/
def frameResolver (plant : Plant) (template : Css.Template Node) (location : Option Location) :
    Style.Resolver Workshop :=
  { resolverFor plant template location with selector := fun _ => return none }

/-- Converts one frame of an animation. -/
def convertFrame (plant : Plant) (template : Css.Template Node) (d : Module.HelperDeclaration)
    (rule : Css.Rule) (frames : Frames) : Building (ForInStep Frames) := do
  let (body, _) ←
    Style.withImportant (Style.convert (frameResolver plant template (some d.location)) rule)
  return .yield (frames.add rule.selector body)

theorem buildFrames?_eq (plant : Plant) (d : Module.HelperDeclaration) :
    buildFrames? plant d =
      starting (scratch d) (readTemplate? d.template >>= fun template? =>
        match template? with
        | none => return none
        | some template =>
          forIn template.root.nested {} (convertFrame plant template d) >>= fun frames =>
            isPlain >>= fun plain => if plain then return some frames.toObject else return none) := rfl

theorem alike_convert_frame (plant : Plant) (template : Css.Template Node) (c : Component)
    (location : Option Location) (rule : Css.Rule) :
    Alike (OnStores (Named c)) (Style.convert (frameResolver plant template location) rule)
      (Style.convert (plant.frameAnswers template c).resolver rule) :=
  Style.alike_convert (Work.oblivious_onStores _) (fun _ => .pure _) rule
    fun request _ => alike_slot plant template c request

/-- An animation breaks off exactly when one of its frames does. -/
theorem stops_buildFrames? (plant : Plant) (d : Module.HelperDeclaration) (s : Session Workshop) :
    Stops (buildFrames? plant d) s ↔ plant.FrameClash d := by
  rw [buildFrames?_eq, stops_starting]
  unfold readTemplate? Plant.FrameClash
  cases hread : Css.Template.read d.template.segments d.template.expressions with
  | error e =>
      simp only [bind_assoc, pure_bind, reduceCtorEq, false_and, exists_false, iff_false]
      exact ((neverStops_report _ _).bind fun _ => Work.neverStops_pure _) _
  | ok template =>
      simp only [pure_bind, Except.ok.injEq, exists_eq_left']
      rw [Work.stops_bind_of_neverStops fun frames => neverStops_isPlain.bind fun plain => by
        cases plain <;> exact Work.neverStops_pure _]
      refine Work.stops_forIn_iff (I := fun s => Named (scratch d) s.store ()) ?_ ?_ _
        (named_self _ _)
      · intro rule _ frames s hs
        unfold convertFrame
        rw [Work.stops_bind_of_neverStops fun _ => Work.neverStops_pure _, stops_withImportant]
        exact stops_convert (fun request => alike_slot plant template (scratch d) request)
          (fun _ => .pure _) rule hs
      · intro rule _ frames s r s' hs hrun
        have hnamed := ((alike_convert_frame plant template (scratch d) (some d.location) rule)
          { s with important := [] } { store := () } ⟨hs, rfl⟩).2.1
        unfold convertFrame at hrun
        rw [Work.run_bind, run_withImportant] at hrun
        cases hconvert : (Style.convert (frameResolver plant template (some d.location)) rule).run
            { s with important := [] } with
        | mk result s₁ =>
            rw [hconvert] at hrun hnamed
            cases result with
            | error f => cases hrun
            | ok styles =>
                cases hrun
                exact ⟨hnamed, _, rfl⟩

end Restyle.Component
