import Restyle.Lowering.Lower
import Restyle.Proofs.Growth
import Restyle.Proofs.Table
import Restyle.Proofs.Work

/-!
# Lowering that breaks off

What a pass makes of a selector is said once for each pass, and what may become of a component is said once
for all of them; what passes keep is read off from that.

Four of the passes always come to an end.  The pass for raised weight breaks off where a body grows while
it is read.  The pass for components in a pseudo state defines custom properties in other components at
its end, and breaks off where such a property has a plain value already.
-/

namespace Restyle.Lowering

open Restyle.Component (SiblingRelation TargetKind)
open Restyle.Style (Key Value Object)
open Work (Alike Keeps Stores Stops NeverStops)

/-! ## What a pass keeps -/

/-- Selectors of a component that is not there are left alone. -/
theorem run_lowerSelectors_absent {pass : Pass} {settings : Settings} {name : String}
    (selectors : List (String × Object)) {s : Session Arena} (hc : s.store.get? name = none) :
    (lowerSelectors pass settings name selectors).run s = (.ok [], s) := by
  cases selectors with
  | nil => rfl
  | cons entry rest =>
      rw [lowerSelectors, Work.run_bind_ok _ (Work.run_store s), hc]
      rfl

/-- A selector of another family is passed over. -/
theorem run_lowerSelectors_skipped {pass : Pass} {settings : Settings} {name selector : String}
    {body : Object} (rest : List (String × Object)) {s : Session Arena} {c : Component}
    (hc : s.store.get? name = some c)
    (hlower : pass.lower? settings s.store c selector (currentBody c selector body) = none) :
    (lowerSelectors pass settings name ((selector, body) :: rest)).run s =
      (lowerSelectors pass settings name rest).run s := by
  rw [lowerSelectors, Work.run_bind_ok _ (Work.run_store s), hc]
  dsimp only
  rw [hlower]

theorem run_lowerSelectors_fault {pass : Pass} {settings : Settings} {name selector : String}
    {body : Object} {rest : List (String × Object)} {s : Session Arena} {c : Component}
    {lowered : Lowered} {f : Fault} (hc : s.store.get? name = some c)
    (hlower : pass.lower? settings s.store c selector (currentBody c selector body) = some lowered)
    (hfault : lowered.fault = some f) :
    (lowerSelectors pass settings name ((selector, body) :: rest)).run s = (.error f, s) := by
  rw [lowerSelectors, Work.run_bind_ok _ (Work.run_store s), hc]
  dsimp only
  rw [hlower]
  dsimp only
  rw [hfault]
  rfl

/-- A selector that is lowered changes its component, and the others follow. -/
theorem run_lowerSelectors_lowered {pass : Pass} {settings : Settings} {name selector : String}
    {body : Object} (rest : List (String × Object)) {s : Session Arena} {c : Component}
    {lowered : Lowered} (hc : s.store.get? name = some c)
    (hlower : pass.lower? settings s.store c selector (currentBody c selector body) = some lowered)
    (hfault : lowered.fault = none) :
    ∃ s', s'.store = s.store.set name lowered.component ∧
      (lowerSelectors pass settings name ((selector, body) :: rest)).run s =
        (lowerSelectors pass settings name rest >>= fun done => pure (selector :: done)).run s' := by
  obtain ⟨d, hreports⟩ := Work.run_forM_report lowered.reports
    { s with store := s.store.set name lowered.component }
  refine ⟨{ s with
    diagnostics := d
    trace := s.trace.lowering pass.name c.name selector
    store := s.store.set name lowered.component }, rfl, ?_⟩
  rw [lowerSelectors, Work.run_bind_ok _ (Work.run_store s), hc]
  dsimp only
  rw [hlower]
  dsimp only
  rw [hfault, Option.forM, pure_bind, Work.run_bind_ok _ (Work.run_update _ s),
    Work.run_bind_ok _ hreports, Work.run_bind_ok _ (Work.run_trace _ _)]

theorem stops_lowerSelectors_lowered {pass : Pass} {settings : Settings} {name selector : String}
    {body : Object} (rest : List (String × Object)) {s : Session Arena} {c : Component}
    {lowered : Lowered} (hc : s.store.get? name = some c)
    (hlower : pass.lower? settings s.store c selector (currentBody c selector body) = some lowered)
    (hfault : lowered.fault = none) :
    ∃ s', s'.store = s.store.set name lowered.component ∧
      (Stops (lowerSelectors pass settings name ((selector, body) :: rest)) s ↔
        Stops (lowerSelectors pass settings name rest) s') := by
  obtain ⟨s', hstore, hrun⟩ := run_lowerSelectors_lowered rest hc hlower hfault
  refine ⟨s', hstore, ?_⟩
  unfold Stops
  rw [hrun]
  exact Work.stops_bind_of_neverStops fun _ => Work.neverStops_pure _

/-- What the lowering of every selector of a list keeps is kept by the lowering of the list. -/
theorem keeps_lowerSelectors_of_mem {pass : Pass} {settings : Settings} {name : String}
    {P : Arena → Prop} (selectors : List (String × Object))
    (hstep : ∀ arena c selector body lowered, (selector, body) ∈ selectors → P arena →
      arena.get? name = some c →
      pass.lower? settings arena c selector (currentBody c selector body) = some lowered →
      P (arena.set name lowered.component)) :
    Keeps (fun s => P s.store) (lowerSelectors pass settings name selectors) := by
  induction selectors with
  | nil => exact Keeps.pure _
  | cons entry rest ih =>
      obtain ⟨selector, body⟩ := entry
      replace ih := ih fun arena c selector body lowered hmem =>
        hstep arena c selector body lowered (List.mem_cons_of_mem _ hmem)
      intro s hs
      cases hc : s.store.get? name with
      | none =>
          rw [run_lowerSelectors_absent _ hc]
          exact hs
      | some c =>
          cases hlower : pass.lower? settings s.store c selector (currentBody c selector body) with
          | none =>
              rw [run_lowerSelectors_skipped rest hc hlower]
              exact ih s hs
          | some lowered =>
              cases hfault : lowered.fault with
              | some f =>
                  rw [run_lowerSelectors_fault hc hlower hfault]
                  exact hs
              | none =>
                  obtain ⟨s', hstore, hrun⟩ := run_lowerSelectors_lowered rest hc hlower hfault
                  rw [hrun]
                  refine ih.bind (fun _ => Keeps.pure _) s' ?_
                  show P s'.store
                  rw [hstore]
                  exact hstep _ _ _ _ _ List.mem_cons_self hs hc hlower

/-- What every lowered selector keeps is kept by the lowering of a list of them. -/
theorem keeps_lowerSelectors {pass : Pass} {settings : Settings} {name : String}
    {P : Arena → Prop}
    (hstep : ∀ arena c selector body lowered, P arena → arena.get? name = some c →
      pass.lower? settings arena c selector body = some lowered →
      P (arena.set name lowered.component))
    (selectors : List (String × Object)) :
    Keeps (fun s => P s.store) (lowerSelectors pass settings name selectors) :=
  keeps_lowerSelectors_of_mem selectors fun arena c selector _ lowered _ =>
    hstep arena c selector _ lowered

/-! ## What a pass makes of a selector -/

/-- A component with an entry for its children. -/
def addChildEntry (c : Component) (body : Object) (kind : TargetKind) (ending : String) : Component :=
  let key := c.styleKey ++ ending
  let c := c.addExtra key body
  { c with elementRules := c.elementRules ++ [{ kind, styleKey := key }] }

/-- A component with an entry that a test of the props guards. -/
def addAttributeEntry (c : Component) (body : Object) (t : AttributeTest) : Component :=
  let key := c.styleKey ++ attributeSuffix t.attr t.value
  let c := c.addExtra key (match t.element with
    | some element => [(.name element, .obj body)]
    | none => body)
  { c with attributeSelectors := c.attributeSelectors ++ [{
      styleKey := key
      attr := t.attr
      operator := t.operator
      value := t.value
      pseudoElement := t.element }] }

/-- A component with an entry for a component inside, which may come from another module. -/
def addInsideEntry (settings : Settings) (arena : Arena) (c : Component) (pseudo : Option String) (target : String)
    (entries : Object) : Component :=
  let child := arena.get? target
  let crossFile := child.isNone && settings.importedComponents.contains target
  let key := Style.styleKey target ++ "In" ++ Text.upperFirst c.name
  let c := c.addExtra key entries
  { c with
    needsDefaultMarker := c.needsDefaultMarker || pseudo.isSome
    overrides := c.overrides ++ [{
      parentKey := c.styleKey
      childKey := child.map (·.styleKey)
      overrideKey := key
      crossFile
      importedName := if crossFile then some target else none }]
    elementRules := c.elementRules ++
      [{ kind := .descendantComponent, styleKey := key, target := some target }] }

/-- A component with the entries of a selector that raises its weight. -/
def addRaisedEntries (c : Component) (pseudo : Option String) (entries : Object) : Component :=
  { c with
    styles := entries.foldl (fun styles entry => raiseEntry pseudo styles entry.1 entry.2) c.styles
    hasSpecificityHack := true }

/-- The entries for a component inside, after the reports on what is left out. -/
def insideEntries (arena : Arena) (c : Component) (selector : String) (body : Object) (pseudo : Option String)
    (target : String) (own : Option String) : Lowered × Object :=
  overrideEntries (insideCondition pseudo own) (((arena.get? target).map (·.styles)).getD []) selector body
    { component := c } []

/-- What becomes of a selector for a component inside. -/
inductive LoweredInside (settings : Settings) (arena : Arena) (c : Component) (selector : String) (body : Object)
    (pseudo : Option String) (target : String) (own : Option String) : Lowered → Prop
  | both (hboth : (pseudo.isSome && own.isSome) = true) :
      LoweredInside settings arena c selector body pseudo target own
        (({ component := c } : Lowered).report .complexSelector selector)
  | nothing (hone : (pseudo.isSome && own.isSome) = false)
      (hempty : (insideEntries arena c selector body pseudo target own).2.isEmpty = true) :
      LoweredInside settings arena c selector body pseudo target own
        (insideEntries arena c selector body pseudo target own).1
  | entry (hone : (pseudo.isSome && own.isSome) = false)
      (hentries : (insideEntries arena c selector body pseudo target own).2.isEmpty = false) :
      LoweredInside settings arena c selector body pseudo target own
        { (insideEntries arena c selector body pseudo target own).1 with
          component := addInsideEntry settings arena c pseudo target
            (insideEntries arena c selector body pseudo target own).2 }

/-- What becomes of a selector for a sibling. -/
inductive LoweredSibling (settings : Settings) (c : Component) (selector : String) (body : Object) :
    Option String → SiblingRelation → Lowered → Prop
  | lost (name : String) :
      LoweredSibling settings c selector body (some name) .adjacent
        (({ component := c } : Lowered).report .selectorSibling selector)
  | next :
      LoweredSibling settings c selector body none .adjacent
        { component := addSiblingEntry { c with hasSiblingPattern := true } body .adjacent "AdjacentSibling" none }
  | later (name : String) :
      LoweredSibling settings c selector body (some name) .general
        { component := addSiblingEntry { c with hasSiblingPattern := true } body .general
            ("SiblingAfter" ++ Style.camelize name) (some name) }
  | marked (hmarkers : settings.relationMarkers = true) :
      LoweredSibling settings c selector body none .general
        (addMarkerValues selector body { component := { c with hasSiblingPattern := true } })
  | flagged (hmarkers : settings.relationMarkers = false) :
      LoweredSibling settings c selector body none .general
        { component := addSiblingEntry { c with hasSiblingPattern := true } body .general "SiblingAfter" none }

/-- What becomes of a selector with raised weight. -/
inductive LoweredRaised (c : Component) (selector : String) (body : Object) (pseudo : Option String) :
    Lowered → Prop
  | grown (hread : readEntries? c.styles selector body = none) :
      LoweredRaised c selector body pseudo { component := c, fault := some .changedWhileRead }
  | entries {entries : Object} (hread : readEntries? c.styles selector body = some entries) :
      LoweredRaised c selector body pseudo
        { component := addRaisedEntries c pseudo entries
          reports := [{ Lowered.diagnostic .specificityHack c selector with severity := .info }] }

section

variable {settings : Settings} {arena : Arena} {c : Component} {selector : String} {body : Object}
  {lowered : Lowered}

theorem universal_eq_some (h : universal.lower? settings arena c selector body = some lowered) :
    ∃ kind ending, childTarget? (stripSelf selector) = some (kind, ending) ∧
      lowered = { component := addChildEntry c body kind ending } := by
  simp only [universal, Option.bind_eq_bind, Option.bind_eq_some_iff] at h
  obtain ⟨⟨kind, ending⟩, hread, h⟩ := h
  cases h
  exact ⟨kind, ending, hread, rfl⟩

theorem descendant_eq_some (h : descendant.lower? settings arena c selector body = some lowered) :
    ∃ pseudo target own, descendant? (stripSelf selector) = some (pseudo, target, own) ∧
      (arena.has target || settings.importedComponents.contains target) = true ∧
      LoweredInside settings arena c selector body pseudo target own lowered := by
  simp only [descendant, Option.bind_eq_bind, Option.bind_eq_some_iff] at h
  obtain ⟨⟨pseudo, target, own⟩, hread, h⟩ := h
  refine ⟨pseudo, target, own, hread, ?_⟩
  dsimp only at h
  split at h
  · cases h
  next hknown =>
  refine ⟨?_, ?_⟩
  · rw [Table.has]
    cases hchild : Table.get? arena target with
    | some child => rfl
    | none => simpa [hchild] using hknown
  simp only [Option.pure_def] at h
  split at h
  · next hboth =>
      cases h
      exact .both hboth
  next hone =>
  split at h
  · next hempty =>
      cases h
      exact .nothing (Bool.not_eq_true _ ▸ hone) hempty
  · next hentries =>
      cases h
      exact .entry (Bool.not_eq_true _ ▸ hone) (Bool.not_eq_true _ ▸ hentries)

theorem attributes_eq_some (h : attributes.lower? settings arena c selector body = some lowered) :
    ∃ t, attributeTest? (Text.strip selector) = some t ∧
      lowered = { component := addAttributeEntry c body t } := by
  simp only [attributes, Option.bind_eq_bind, Option.bind_eq_some_iff] at h
  obtain ⟨t, hread, h⟩ := h
  cases h
  exact ⟨t, hread, rfl⟩

theorem siblings_eq_some (h : siblings.lower? settings arena c selector body = some lowered) :
    ∃ className relation, sibling? (Text.strip selector) = some (className, relation) ∧
      LoweredSibling settings c selector body className relation lowered := by
  simp only [siblings, Option.bind_eq_bind, Option.bind_eq_some_iff] at h
  obtain ⟨⟨className, relation⟩, hread, h⟩ := h
  refine ⟨className, relation, hread, ?_⟩
  cases relation <;> cases className <;> dsimp only at h
  · cases h
    exact .next
  · cases h
    exact .lost _
  · cases h
    split
    · next hmarkers => exact .marked hmarkers
    · next hmarkers => exact .flagged (Bool.not_eq_true _ ▸ hmarkers)
  · cases h
    exact .later _

theorem specificity_eq_some (h : specificity.lower? settings arena c selector body = some lowered) :
    ∃ pseudo, raised? (Text.strip selector) = some pseudo ∧ LoweredRaised c selector body pseudo lowered := by
  simp only [specificity, Option.bind_eq_bind, Option.bind_eq_some_iff] at h
  obtain ⟨pseudo, hraised, h⟩ := h
  refine ⟨pseudo, hraised, ?_⟩
  split at h
  · next hread =>
      cases h
      exact .grown hread
  · next hread =>
      cases h
      exact .entries hread

theorem ancestor_eq_some (h : ancestor.lower? settings arena c selector body = some lowered) :
    ∃ name pseudo parent, ancestor? (Text.strip selector) = some (name, pseudo) ∧
      arena.get? name = some parent ∧ parent.name ≠ c.name ∧
      lowered = bridgeEntries parent pseudo selector body { component := c } := by
  simp only [ancestor, Option.bind_eq_bind, Option.bind_eq_some_iff] at h
  obtain ⟨⟨name, pseudo⟩, hread, parent, hparent, h⟩ := h
  split at h
  · cases h
  · next hname =>
      cases h
      exact ⟨name, pseudo, parent, hread, hparent, by simpa using hname, rfl⟩

end

/-- Collecting the entries for a component inside may add reports and nothing else. -/
theorem overrideEntries_keeps (condition : Option Key) (childStyles : Object) (selector : String)
    (body : Object) (l : Lowered) (out : Object) :
    (overrideEntries condition childStyles selector body l out).1.fault = l.fault ∧
      (overrideEntries condition childStyles selector body l out).1.component = l.component := by
  induction body generalizing l out with
  | nil => exact ⟨rfl, rfl⟩
  | cons entry rest ih =>
      obtain ⟨key, value⟩ := entry
      cases condition with
      | none => exact ih l _
      | some condition' =>
          simp only [overrideEntries]
          split
          · exact ih l _
          split
          · exact ih (l.report .complexSelector selector) out
          · exact ih l _

theorem insideEntries_component (arena : Arena) (c : Component) (selector : String) (body : Object)
    (pseudo : Option String) (target : String) (own : Option String) :
    (insideEntries arena c selector body pseudo target own).1.component = c :=
  (overrideEntries_keeps _ _ _ _ _ _).2

/-- Values behind a marker change the styles of a component and the mark on it. -/
theorem addMarkerValues_component (selector : String) (body : Object) (l : Lowered) :
    ∃ styles, (addMarkerValues selector body l).component =
      { l.component with styles, needsDefaultMarker := true } := by
  fun_induction addMarkerValues selector body l with
  | case1 l => exact ⟨_, rfl⟩
  | case2 key value rest l _ ih => exact ih
  | case3 key value rest l _ condition existing entry ih => exact ih

/-- Values that depend on another component change the styles of a component and its custom properties. -/
theorem bridgeEntries_component (parent : Component) (pseudo selector : String) (body : Object) (l : Lowered) :
    ∃ styles injections, (bridgeEntries parent pseudo selector body l).component =
      { l.component with styles, injections } := by
  fun_induction bridgeEntries parent pseudo selector body l with
  | case1 l => exact ⟨_, _, rfl⟩
  | case2 value rest l property hvalue c varName entry c' c'' ih => exact ih
  | case3 l key value rest _ ih => exact ih

/-- What a component may become when a selector of it is lowered. -/
inductive Reworked (c : Component) (selector : String) (body : Object) : Component → Prop
  | same : Reworked c selector body c
  | child (kind : TargetKind) (ending : String) : Reworked c selector body (addChildEntry c body kind ending)
  | inside (settings : Settings) (arena : Arena) (pseudo : Option String) (target : String) (entries : Object) :
      Reworked c selector body (addInsideEntry settings arena c pseudo target entries)
  | tested (t : AttributeTest) : Reworked c selector body (addAttributeEntry c body t)
  | sibling (relation : SiblingRelation) (ending : String) (className : Option String) :
      Reworked c selector body
        (addSiblingEntry { c with hasSiblingPattern := true } body relation ending className)
  | marked :
      Reworked c selector body
        (addMarkerValues selector body { component := { c with hasSiblingPattern := true } }).component
  | raised {pseudo : Option String} {entries : Object} (hraised : raised? (Text.strip selector) = some pseudo)
      (hread : readEntries? c.styles selector body = some entries) :
      Reworked c selector body (addRaisedEntries c pseudo entries)
  | bridged {name pseudo : String} (parent : Component)
      (hancestor : ancestor? (Text.strip selector) = some (name, pseudo)) :
      Reworked c selector body (bridgeEntries parent pseudo selector body { component := c }).component

/-- A pass makes no more of a component than its family of selectors says. -/
theorem reworked_of_lower {pass : Pass} (hpass : pass ∈ allPasses) {settings : Settings} {arena : Arena}
    {c : Component} {selector : String} {body : Object} {lowered : Lowered}
    (h : pass.lower? settings arena c selector body = some lowered) :
    Reworked c selector body lowered.component := by
  simp only [allPasses, List.mem_cons, List.not_mem_nil, or_false] at hpass
  rcases hpass with rfl | rfl | rfl | rfl | rfl | rfl
  · obtain ⟨kind, ending, -, rfl⟩ := universal_eq_some h
    exact .child kind ending
  · obtain ⟨pseudo, target, own, -, -, hlowered⟩ := descendant_eq_some h
    cases hlowered with
    | both => exact .same
    | nothing => exact (insideEntries_component ..).symm ▸ .same
    | entry => exact .inside settings arena pseudo target _
  · obtain ⟨t, -, rfl⟩ := attributes_eq_some h
    exact .tested t
  · obtain ⟨className, relation, -, hlowered⟩ := siblings_eq_some h
    cases hlowered with
    | lost => exact .same
    | next | later | flagged => exact .sibling ..
    | marked => exact .marked
  · obtain ⟨pseudo, hraised, hlowered⟩ := specificity_eq_some h
    cases hlowered with
    | grown => exact .same
    | entries hread => exact .raised hraised hread
  · obtain ⟨name, pseudo, parent, hancestor, -, -, rfl⟩ := ancestor_eq_some h
    exact .bridged parent hancestor

/-! ## Passes without faults -/

/-- A pass that breaks off at no selector. -/
def Faultless (pass : Pass) : Prop :=
  ∀ settings arena c selector body lowered,
    pass.lower? settings arena c selector body = some lowered → lowered.fault = none

theorem addMarkerValues_fault (selector : String) (body : Object) (l : Lowered) :
    (addMarkerValues selector body l).fault = l.fault := by
  fun_induction addMarkerValues selector body l with
  | case1 l => rfl
  | case2 l key value rest h ih => exact ih
  | case3 l key value rest h condition existing entry ih => exact ih

theorem bridgeEntries_fault (parent : Component) (pseudo selector : String) (body : Object)
    (l : Lowered) : (bridgeEntries parent pseudo selector body l).fault = l.fault := by
  fun_induction bridgeEntries parent pseudo selector body l with
  | case1 l => rfl
  | case2 => assumption
  | case3 => assumption

theorem faultless_universal : Faultless universal := by
  intro settings arena c selector body lowered h
  obtain ⟨kind, ending, -, rfl⟩ := universal_eq_some h
  rfl

theorem faultless_attributes : Faultless attributes := by
  intro settings arena c selector body lowered h
  obtain ⟨t, -, rfl⟩ := attributes_eq_some h
  rfl

theorem faultless_ancestor : Faultless ancestor := by
  intro settings arena c selector body lowered h
  obtain ⟨name, pseudo, parent, -, -, -, rfl⟩ := ancestor_eq_some h
  exact bridgeEntries_fault _ _ _ _ _

theorem faultless_siblings : Faultless siblings := by
  intro settings arena c selector body lowered h
  obtain ⟨className, relation, -, hlowered⟩ := siblings_eq_some h
  cases hlowered with
  | lost | next | later | flagged => rfl
  | marked => exact addMarkerValues_fault _ _ _

theorem faultless_descendant : Faultless descendant := by
  intro settings arena c selector body lowered h
  obtain ⟨pseudo, target, own, -, -, hlowered⟩ := descendant_eq_some h
  cases hlowered with
  | both => rfl
  | nothing | entry => exact (overrideEntries_keeps _ _ _ _ _ _).1

/-! ## Runs of a pass -/

theorem neverStops_lowerSelectors {pass : Pass} (h : Faultless pass) (settings : Settings)
    (name : String) (selectors : List (String × Object)) :
    NeverStops (lowerSelectors pass settings name selectors) := by
  induction selectors with
  | nil => exact Work.neverStops_pure _
  | cons entry rest ih =>
      obtain ⟨selector, body⟩ := entry
      intro s
      unfold Stops
      cases hc : s.store.get? name with
      | none =>
          rw [run_lowerSelectors_absent _ hc]
          exact nofun
      | some c =>
          cases hlower : pass.lower? settings s.store c selector (currentBody c selector body) with
          | none =>
              rw [run_lowerSelectors_skipped rest hc hlower]
              exact ih s
          | some lowered =>
              obtain ⟨s', -, hrun⟩ :=
                run_lowerSelectors_lowered rest hc hlower (h _ _ _ _ _ _ hlower)
              rw [hrun]
              exact ih.bind (fun _ => Work.neverStops_pure _) s'

theorem neverStops_runOn {pass : Pass} (h : Faultless pass) (settings : Settings) (name : String) :
    NeverStops (runOn pass settings name) := by
  refine Work.neverStops_store.bind fun arena => ?_
  split
  · exact Work.neverStops_pure _
  · exact (neverStops_lowerSelectors h settings name _).bind fun _ => Work.neverStops_modify _

/-- The visits of a pass, without what is left to do after them. -/
def Pass.visit (pass : Pass) (settings : Settings) : Work Unit := do
  (← Work.store).names.forM (runOn pass settings)

/-- What a pass does after its visits. -/
def Pass.close (pass : Pass) : Work Unit := do
  match pass.finish (← Work.store) with
  | .error f => throw f
  | .ok (arena, notes) =>
    Work.update fun _ => arena
    notes.forM fun (subject, outcome, detail) =>
      Work.trace (·.inspection subject outcome detail)

theorem Pass.run_eq (pass : Pass) (settings : Settings) :
    pass.run settings = pass.visit settings >>= fun _ => pass.close := by
  unfold Pass.run Pass.visit
  exact (bind_assoc ..).symm

theorem neverStops_visit {pass : Pass} (h : Faultless pass) (settings : Settings) :
    NeverStops (pass.visit settings) := by
  refine Work.neverStops_store.bind fun arena => ?_
  exact Work.neverStops_forM _ fun name => neverStops_runOn h settings name

/-- A pass closes unless its last step fails. -/
theorem stops_close (pass : Pass) (s : Session Arena) :
    Stops pass.close s ↔ ∃ f, pass.finish s.store = .error f := by
  unfold Pass.close
  rw [Work.stops_bind_ok (Work.run_store s)]
  cases h : pass.finish s.store with
  | error f => simp
  | ok done =>
      obtain ⟨arena, notes⟩ := done
      refine iff_of_false ?_ (by simp)
      refine (Work.neverStops_modify _).bind (fun _ => ?_) s
      exact Work.neverStops_forM _ fun note => Work.neverStops_modify _

/-- A pass without faults and with nothing left to do comes to its end. -/
theorem neverStops_run {pass : Pass} (h : Faultless pass)
    (hfinish : pass.finish = fun a => .ok (a, [])) (settings : Settings) :
    NeverStops (pass.run settings) := by
  rw [Pass.run_eq]
  refine (neverStops_visit h settings).bind fun _ s => ?_
  rw [stops_close, hfinish]
  simp


/-! ## What has been collected has no influence -/

theorem alike_lowerSelectors (pass : Pass) (settings : Settings) (name : String)
    (selectors : List (String × Object)) :
    Alike (Stores Eq) (lowerSelectors pass settings name selectors)
      (lowerSelectors pass settings name selectors) := by
  induction selectors with
  | nil => exact Alike.pure _
  | cons entry rest ih =>
      obtain ⟨selector, body⟩ := entry
      unfold lowerSelectors
      refine Alike.store_bind_eq fun arena => ?_
      split
      · exact Alike.pure _
      · next c hc =>
          split
          · exact ih
          · next lowered hlower =>
              refine Alike.bind ?_ fun _ => (Alike.update_eq _).bind fun _ =>
                (Alike.forM _ fun d => Alike.report (Work.oblivious_stores Eq) d d).bind fun _ =>
                  (Alike.trace (Work.oblivious_stores Eq) _ _).bind fun _ =>
                    ih.bind fun _ => Alike.pure _
              cases lowered.fault with
              | none => exact Alike.pure _
              | some f => exact Alike.throw f

theorem alike_runOn (pass : Pass) (settings : Settings) (name : String) :
    Alike (Stores Eq) (runOn pass settings name) (runOn pass settings name) := by
  refine Alike.store_bind_eq fun arena => ?_
  split
  · exact Alike.pure _
  · exact (alike_lowerSelectors pass settings name _).bind fun _ => Alike.update_eq _

theorem alike_visit (pass : Pass) (settings : Settings) :
    Alike (Stores Eq) (pass.visit settings) (pass.visit settings) :=
  Alike.store_bind_eq fun _ => Alike.forM _ fun name => alike_runOn pass settings name

theorem alike_close (pass : Pass) : Alike (Stores Eq) pass.close pass.close := by
  refine Alike.store_bind_eq fun arena => ?_
  split
  · exact Alike.throw _
  · exact (Alike.update_eq _).bind fun _ =>
      Alike.forM _ fun note => Alike.trace (Work.oblivious_stores Eq) _ _

theorem alike_run (pass : Pass) (settings : Settings) :
    Alike (Stores Eq) (pass.run settings) (pass.run settings) := by
  rw [Pass.run_eq]
  exact (alike_visit pass settings).bind fun _ => alike_close pass

/-! ## What the visits keep -/

/-- What every lowered selector of a component keeps, and the removal of some, is kept by a visit. -/
theorem keeps_runOn {pass : Pass} {settings : Settings} {name : String} {P : Arena → Prop}
    (hstep : ∀ arena c selector body lowered, P arena → arena.get? name = some c →
      pass.lower? settings arena c selector body = some lowered →
      P (arena.set name lowered.component))
    (herase : ∀ arena selectors, P arena →
      P (Table.modify arena name fun c => { c with styles := eraseAll c.styles selectors })) :
    Keeps (fun s => P s.store) (runOn pass settings name) := by
  refine Keeps.store_bind fun arena s harena hs => ?_
  cases hs
  split
  · exact harena
  · next c hc =>
      refine Keeps.bind (keeps_lowerSelectors hstep (rawSelectors c.styles)) (fun done => ?_) s harena
      exact Keeps.update fun arena h => herase arena done h

/-- A visit leaves all other components alone. -/
theorem runOn_other (pass : Pass) (settings : Settings) {name other : String} (h : name ≠ other)
    (s : Session Arena) :
    ((runOn pass settings name).run s).2.store.get? other = s.store.get? other := by
  refine keeps_runOn (P := fun arena => arena.get? other = s.store.get? other) ?_ ?_ s rfl
  · intro arena c selector body lowered hP _ _
    rw [Table.get?_set_of_ne _ _ h, hP]
  · intro arena selectors hP
    rw [Table.get?_modify_of_ne _ _ h, hP]

/-- A pass keeps what its visits and its last step keep. -/
theorem keeps_run {pass : Pass} {settings : Settings} {P : Arena → Prop}
    (hvisit : ∀ name, Keeps (fun s => P s.store) (runOn pass settings name))
    (hfinish : ∀ arena done, P arena → pass.finish arena = .ok done → P done.1) :
    Keeps (fun s => P s.store) (pass.run settings) := by
  rw [Pass.run_eq]
  refine Keeps.bind ?_ fun _ => ?_
  · exact Keeps.store_bind fun arena s harena hs =>
      Keeps.forM _ (fun name _ => hvisit name) s (hs ▸ harena)
  · refine Keeps.store_bind fun arena s harena hs => ?_
    cases hs
    cases hdone : pass.finish s.store with
    | error f => exact harena
    | ok done =>
        obtain ⟨arena', notes⟩ := done
        refine Keeps.bind (Keeps.update fun _ _ => ?_) (fun _ => Keeps.forM _ fun _ _ => ?_) s harena
        · exact hfinish _ _ harena hdone
        · exact Keeps.trace _

theorem keeps_dropLeftovers {settings : Settings} {name : String} {P : Arena → Prop}
    (herase : ∀ arena selectors, P arena →
      P (Table.modify arena name fun c => { c with styles := eraseAll c.styles selectors })) :
    Keeps (fun s => P s.store) (dropLeftovers settings name) := by
  intro s hs
  unfold dropLeftovers
  rw [Work.run_bind_ok _ (Work.run_store s)]
  split
  · exact hs
  · next c hc =>
      refine Keeps.bind (P := fun s => P s.store) (Keeps.forIn _ (fun selector _ _ => ?_) _)
        (fun _ => ?_) s hs
      · exact (Keeps.report _).bind fun _ => Keeps.pure _
      · exact Keeps.update fun arena h => herase arena _ h

/-- Lowering keeps what the passes and the removal of what is left keep. -/
theorem keeps_lowerAll_of_parts {settings : Settings} {P : Arena → Prop}
    (hpass : ∀ pass ∈ allPasses, Keeps (fun s => P s.store) (pass.run settings))
    (hdrop : ∀ name, Keeps (fun s => P s.store) (dropLeftovers settings name)) :
    Keeps (fun s => P s.store) (lowerAll settings) := by
  refine Keeps.bind (Keeps.forIn _ (fun pass hmem _ => ?_) _) fun _ => ?_
  · exact (Keeps.trace _).bind fun _ => (hpass pass hmem).bind fun _ =>
      (Keeps.trace _).bind fun _ => Keeps.pure _
  · refine Keeps.store_bind fun arena s harena hs => ?_
    cases hs
    exact Keeps.forM _ (fun name _ => hdrop name) s harena

/-- Lowering keeps what the passes keep and what may be dropped in the end. -/
theorem keeps_lowerAll {settings : Settings} {P : Arena → Prop}
    (hpass : ∀ pass ∈ allPasses, Keeps (fun s => P s.store) (pass.run settings))
    (herase : ∀ arena name selectors, P arena →
      P (Table.modify arena name fun c => { c with styles := eraseAll c.styles selectors })) :
    Keeps (fun s => P s.store) (lowerAll settings) :=
  keeps_lowerAll_of_parts hpass fun name => keeps_dropLeftovers fun arena => herase arena name

/-! ## Raised weight -/

/-- A component after a selector that raises its weight; another selector leaves it as it was. -/
def afterRaising (c : Component) (selector : String) (body : Object) : Component :=
  ((specificity.lower? {} [] c selector (currentBody c selector body)).map (·.component)).getD c

/-- In a list of selectors that are lowered one after the other, a raised body grows while it is read. -/
inductive Overgrows : Component → List (String × Object) → Prop where
  | here {c : Component} {selector : String} {body : Object} {rest : List (String × Object)} :
      (raised? (Text.strip selector)).isSome = true →
      ReadsGrowing c.styles selector (currentBody c selector body) →
      Overgrows c ((selector, body) :: rest)
  | later {c : Component} {selector : String} {body : Object} {rest : List (String × Object)} :
      Overgrows (afterRaising c selector body) rest → Overgrows c ((selector, body) :: rest)

theorem overgrows_cons_iff (c : Component) (selector : String) (body : Object)
    (rest : List (String × Object)) :
    Overgrows c ((selector, body) :: rest) ↔
      (raised? (Text.strip selector)).isSome = true ∧
          ReadsGrowing c.styles selector (currentBody c selector body) ∨
        Overgrows (afterRaising c selector body) rest := by
  constructor
  · intro h
    cases h with
    | here hraised hgrows => exact .inl ⟨hraised, hgrows⟩
    | later h => exact .inr h
  · rintro (⟨hraised, hgrows⟩ | h)
    · exact .here hraised hgrows
    · exact .later h

/-- A selector of another family is left alone by the pass for raised weight. -/
theorem specificity_none {selector : String} (h : raised? (Text.strip selector) = none)
    (settings : Settings) (arena : Arena) (c : Component) (body : Object) :
    specificity.lower? settings arena c selector body = none := by
  simp [specificity, h]

/-- The pass for raised weight breaks off exactly at a body that grows while it is read. -/
theorem specificity_fault {selector : String} {pseudo : Option String}
    (h : raised? (Text.strip selector) = some pseudo) (settings : Settings) (arena : Arena)
    (c : Component) (body : Object) :
    ∃ lowered, specificity.lower? settings arena c selector body = some lowered ∧
      (lowered.fault ≠ none ↔ ReadsGrowing c.styles selector body) := by
  rw [← readEntries?_eq_none_iff]
  cases hread : readEntries? c.styles selector body with
  | none =>
      exact ⟨{ component := c, fault := some .changedWhileRead }, by simp [specificity, h, hread],
        by simp⟩
  | some entries =>
      refine ⟨{
        component := { c with
          styles := entries.foldl (fun styles entry => raiseEntry pseudo styles entry.1 entry.2) c.styles
          hasSpecificityHack := true }
        reports := [{ Lowered.diagnostic .specificityHack c selector with severity := .info }] },
        ?_, by simp⟩
      simp [specificity, h, hread]

/-- The selectors of a component that raise its weight break off the pass where a body grows. -/
theorem stops_lowerSelectors_specificity (settings : Settings) (name : String)
    (selectors : List (String × Object)) (s : Session Arena) {c : Component}
    (hc : s.store.get? name = some c) :
    Stops (lowerSelectors specificity settings name selectors) s ↔ Overgrows c selectors := by
  induction selectors generalizing s c with
  | nil => exact iff_of_false (Work.not_stops_pure _ _) nofun
  | cons entry rest ih =>
      obtain ⟨selector, body⟩ := entry
      rw [overgrows_cons_iff]
      cases hraised : raised? (Text.strip selector) with
      | none =>
          have hnone := specificity_none hraised
          have hafter : afterRaising c selector body = c := by
            unfold afterRaising
            rw [hnone]
            rfl
          rw [Stops, run_lowerSelectors_skipped rest hc (hnone _ _ _ _), ← Stops, ih s hc, hafter]
          simp
      | some pseudo =>
          obtain ⟨lowered, hlower, hfault⟩ :=
            specificity_fault hraised settings s.store c (currentBody c selector body)
          have hafter : afterRaising c selector body = lowered.component := by
            unfold afterRaising
            rw [show specificity.lower? {} [] c selector (currentBody c selector body) = some lowered
              from hlower]
            rfl
          cases hf : lowered.fault with
          | some f =>
              refine iff_of_true ⟨f, ?_⟩ (.inl ⟨rfl, hfault.mp ?_⟩)
              · rw [run_lowerSelectors_fault hc hlower hf]
              · rw [hf]
                exact nofun
          | none =>
              obtain ⟨s', hstore, hstops⟩ := stops_lowerSelectors_lowered rest hc hlower hf
              have hc' : s'.store.get? name = some lowered.component := by
                rw [hstore, Table.get?_set_self]
              rw [hstops, ih s' hc', hafter]
              refine (or_iff_right ?_).symm
              rintro ⟨-, hgrows⟩
              exact hfault.mpr hgrows hf

/-- A visit for raised weight breaks off exactly when a body of the component grows. -/
theorem stops_runOn_specificity (settings : Settings) (name : String) (s : Session Arena) :
    Stops (runOn specificity settings name) s ↔
      ∃ c, s.store.get? name = some c ∧ Overgrows c (rawSelectors c.styles) := by
  unfold runOn
  rw [Work.stops_bind_ok (Work.run_store s)]
  cases hc : s.store.get? name with
  | none => simp
  | some c =>
      dsimp only
      rw [Work.stops_bind_of_neverStops fun _ => Work.neverStops_update _,
        stops_lowerSelectors_specificity settings name _ s hc]
      simp

/-- A raised body of one of the components grows while it is read. -/
def Overgrown (arena : Arena) : Prop :=
  ∃ name c, arena.get? name = some c ∧ Overgrows c (rawSelectors c.styles)

/-- The visits do not meet, so they break off where the visit of a component does. -/
theorem stops_visits_specificity (settings : Settings) {names : List String} (hnodup : names.Nodup)
    (s : Session Arena) :
    Stops (names.forM (runOn specificity settings)) s ↔
      ∃ name c, name ∈ names ∧ s.store.get? name = some c ∧ Overgrows c (rawSelectors c.styles) := by
  induction names generalizing s with
  | nil => simp
  | cons name names ih =>
      obtain ⟨hname, hnodup'⟩ := List.nodup_cons.mp hnodup
      show Stops (runOn specificity settings name >>= fun _ => names.forM _) s ↔ _
      by_cases hstops : Stops (runOn specificity settings name) s
      · obtain ⟨c, hc, hgrows⟩ := (stops_runOn_specificity settings name s).mp hstops
        exact iff_of_true (Work.stops_bind.mpr (.inl hstops)) ⟨name, c, List.mem_cons_self, hc, hgrows⟩
      obtain ⟨_, s', hrun⟩ := Work.exists_run_of_not_stops hstops
      have hother : ∀ other ∈ names, s'.store.get? other = s.store.get? other := by
        intro other hmem
        have hne : name ≠ other := fun e => hname (e ▸ hmem)
        have h := runOn_other specificity settings hne s
        rw [hrun] at h
        exact h
      rw [Work.stops_bind_ok hrun, ih hnodup' s']
      constructor
      · rintro ⟨other, c, hmem, hc, hgrows⟩
        exact ⟨other, c, List.mem_cons_of_mem name hmem, (hother other hmem).symm.trans hc, hgrows⟩
      · rintro ⟨other, c, hmem, hc, hgrows⟩
        rcases List.mem_cons.mp hmem with rfl | hmem
        · exact absurd ((stops_runOn_specificity settings other s).mpr ⟨c, hc, hgrows⟩) hstops
        · exact ⟨other, c, hmem, (hother other hmem).trans hc, hgrows⟩

/-- The pass for raised weight breaks off exactly when a body of a component grows. -/
theorem stops_specificity (settings : Settings) {s : Session Arena} (hnames : s.store.names.Nodup) :
    Stops (specificity.run settings) s ↔ Overgrown s.store := by
  have hclose : ∀ _ : Unit, NeverStops specificity.close := by
    intro _ s'
    rw [stops_close]
    simp [specificity]
  rw [Pass.run_eq, Work.stops_bind_of_neverStops hclose]
  unfold Pass.visit
  rw [Work.stops_bind_ok (Work.run_store s), stops_visits_specificity settings hnames]
  constructor
  · rintro ⟨name, c, -, hc, h⟩
    exact ⟨name, c, hc, h⟩
  · rintro ⟨name, c, hc, h⟩
    exact ⟨name, c, Table.mem_names_of_get? hc, hc, h⟩

/-! ## Custom properties of other components -/

/-- A component has a plain value under a key. -/
def HasLeaf (arena : Arena) (name : String) (key : Key) : Prop :=
  ∃ c value, arena.get? name = some c ∧ Object.get? c.styles key = some value ∧
    value.isObject = false

/-- A custom property cannot be defined exactly where it has a plain value. -/
theorem inject_error_iff (arena : Arena) (i : Component.VariableInjection) :
    (∃ f, inject arena i = .error f) ↔ HasLeaf arena i.target (.name i.varName) := by
  unfold inject HasLeaf
  cases hparent : arena.get? i.target with
  | none => simp
  | some parent =>
      dsimp only
      cases hvalue : Object.get? parent.styles (.name i.varName) with
      | none => simp [hvalue]
      | some value => cases value <;> simp [hvalue, Style.Value.isObject]

/-- A custom property is defined by an object in the styles of its component. -/
theorem inject_eq_ok {arena arena' : Arena} {i : Component.VariableInjection}
    (h : inject arena i = .ok (some arena')) :
    ∃ parent o, arena.get? i.target = some parent ∧
      arena' = arena.set i.target (parent.setStyle (.name i.varName) (.obj o)) := by
  unfold inject at h
  cases hparent : arena.get? i.target with
  | none => simp [hparent] at h
  | some parent =>
      rw [hparent] at h
      dsimp only at h
      split at h
      · cases h
        exact ⟨parent, _, rfl, rfl⟩
      · cases h

/-- The definition of a custom property makes no value plain, and no plain value an object. -/
theorem hasLeaf_inject {arena arena' : Arena} {i : Component.VariableInjection}
    (h : inject arena i = .ok (some arena')) (name : String) (key : Key) :
    HasLeaf arena' name key ↔ HasLeaf arena name key := by
  have hfree : ¬ HasLeaf arena i.target (.name i.varName) := by
    rw [← inject_error_iff, h]
    simp
  obtain ⟨parent, o, hparent, rfl⟩ := inject_eq_ok h
  unfold HasLeaf at hfree ⊢
  by_cases hname : i.target = name
  · subst hname
    rw [hparent] at hfree
    rw [Table.get?_set_self, hparent]
    by_cases hkey : Key.name i.varName = key
    · subst hkey
      refine iff_of_false ?_ hfree
      rintro ⟨c, value, hc, hvalue, hplain⟩
      cases hc
      rw [Component.setStyle, Object.get?_set_self] at hvalue
      cases hvalue
      cases hplain
    · simp [Component.setStyle, Object.get?_set_of_ne _ _ hkey]
  · rw [Table.get?_set_of_ne _ _ hname]

/-- What the definition of each custom property of a row keeps is kept by the row. -/
theorem injectAll_keeps_of_mem {P : Arena → Prop} {source : String}
    {injections : List Component.VariableInjection}
    (hstep : ∀ arena arena' i, i ∈ injections → P arena → inject arena i = .ok (some arena') → P arena')
    {acc done : Arena × List (String × String × String)}
    (h : injectAll source injections acc = .ok done) (hacc : P acc.1) : P done.1 := by
  induction injections generalizing acc with
  | nil =>
      cases h
      exact hacc
  | cons i rest ih =>
      obtain ⟨arena, notes⟩ := acc
      replace ih := @ih fun arena arena' i hi => hstep arena arena' i (List.mem_cons_of_mem _ hi)
      rw [injectAll] at h
      cases hi : inject arena i with
      | error f =>
          rw [hi] at h
          cases h
      | ok made =>
          rw [hi] at h
          cases made with
          | none => exact ih h hacc
          | some arena' => exact ih h (hstep _ _ i List.mem_cons_self hacc hi)

/-- What the definition of every custom property of the components keeps holds after all of them. -/
theorem finish_ancestor_keeps_of_mem {P : Arena → Prop} {arena : Arena}
    (hstep : ∀ current next c i, c ∈ arena.values → i ∈ c.injections → P current →
      inject current i = .ok (some next) → P next)
    {done : Arena × List (String × String × String)} (harena : P arena)
    (h : ancestor.finish arena = .ok done) : P done.1 := by
  have hloop : ∀ (cs : List Component) (acc : Arena × List (String × String × String)),
      (∀ c ∈ cs, c ∈ arena.values) → P acc.1 →
      cs.foldlM (fun acc c => injectAll c.name c.injections acc) acc = .ok done → P done.1 := by
    intro cs
    induction cs with
    | nil =>
        intro acc _ hacc h
        cases h
        exact hacc
    | cons c cs ih =>
        intro acc hmem hacc h
        obtain ⟨hc, hcs⟩ := List.forall_mem_cons.mp hmem
        rw [List.foldlM_cons] at h
        cases hinject : injectAll c.name c.injections acc with
        | error f =>
            rw [hinject] at h
            cases h
        | ok next =>
            rw [hinject] at h
            refine ih next hcs (injectAll_keeps_of_mem (fun current next i hi => ?_) hinject hacc) h
            exact hstep current next c i hc hi
  exact hloop arena.values (arena, []) (fun _ hc => hc) harena h

theorem finish_ancestor_keeps {P : Arena → Prop}
    (hstep : ∀ arena name c key value, P arena → arena.get? name = some c →
      P (arena.set name (c.setStyle key value)))
    {arena : Arena} {done : Arena × List (String × String × String)} (harena : P arena)
    (h : ancestor.finish arena = .ok done) : P done.1 := by
  refine finish_ancestor_keeps_of_mem (fun current next c i _ _ hcurrent hi => ?_) harena h
  obtain ⟨parent, o, hparent, rfl⟩ := inject_eq_ok hi
  exact hstep _ _ _ _ _ hcurrent hparent

/-- All passes but the last have nothing left to do after their visits. -/
theorem eq_ancestor_or_closed {pass : Pass} (hpass : pass ∈ allPasses) :
    pass = ancestor ∨ pass.finish = fun arena => .ok (arena, []) := by
  simp only [allPasses, List.mem_cons, List.not_mem_nil, or_false] at hpass
  rcases hpass with rfl | rfl | rfl | rfl | rfl | rfl
  case inr.inr.inr.inr.inr => exact .inl rfl
  all_goals exact .inr rfl

theorem finish_keeps {pass : Pass} (hpass : pass ∈ allPasses) {P : Arena → Prop} {arena : Arena} (h : P arena)
    (hancestor : ∀ done, ancestor.finish arena = .ok done → P done.1)
    {done : Arena × List (String × String × String)} (hdone : pass.finish arena = .ok done) : P done.1 := by
  rcases eq_ancestor_or_closed hpass with rfl | hclosed
  · exact hancestor done hdone
  · rw [hclosed] at hdone
    cases hdone
    exact h

/-- A pass keeps what its lowered selectors, the removal of some and the definition of custom properties keep. -/
theorem keeps_run_of_mem {pass : Pass} (hpass : pass ∈ allPasses) {settings : Settings} {P : Arena → Prop}
    (hlower : ∀ arena name c selector body lowered, P arena → arena.get? name = some c →
      pass.lower? settings arena c selector body = some lowered → P (arena.set name lowered.component))
    (herase : ∀ arena name selectors, P arena →
      P (Table.modify arena name fun c => { c with styles := eraseAll c.styles selectors }))
    (hdefine : ∀ arena name c key value, P arena → arena.get? name = some c →
      P (arena.set name (c.setStyle key value))) :
    Keeps (fun s => P s.store) (pass.run settings) := by
  refine keeps_run (fun name => ?_) fun arena done h hdone => ?_
  · exact keeps_runOn (fun arena => hlower arena name) fun arena => herase arena name
  · exact finish_keeps hpass h (fun _ hancestor => finish_ancestor_keeps hdefine h hancestor) hdone

/-- A row of definitions fails exactly when one of them meets a plain value; none makes up for it. -/
theorem injectAll_spec (source : String) (injections : List Component.VariableInjection)
    (arena : Arena) (notes : List (String × String × String)) :
    ((∃ f, injectAll source injections (arena, notes) = .error f) ↔
        ∃ i ∈ injections, HasLeaf arena i.target (.name i.varName)) ∧
      ∀ done, injectAll source injections (arena, notes) = .ok done →
        ∀ name key, HasLeaf done.1 name key ↔ HasLeaf arena name key := by
  induction injections generalizing arena notes with
  | nil =>
      refine ⟨by simp [injectAll], fun done h => ?_⟩
      cases h
      exact fun _ _ => Iff.rfl
  | cons i rest ih =>
      cases hi : inject arena i with
      | error f =>
          have hleaf := (inject_error_iff arena i).mp ⟨f, hi⟩
          have hall : injectAll source (i :: rest) (arena, notes) = .error f := by
            rw [injectAll, hi]
            rfl
          rw [hall]
          exact ⟨iff_of_true ⟨f, rfl⟩ ⟨i, List.mem_cons_self, hleaf⟩, nofun⟩
      | ok made =>
          have hfree : ¬ HasLeaf arena i.target (.name i.varName) := by
            rw [← inject_error_iff, hi]
            simp
          cases made with
          | none =>
              have hall : injectAll source (i :: rest) (arena, notes) =
                  injectAll source rest (arena, notes) := by
                rw [injectAll, hi]
                rfl
              rw [hall]
              refine ⟨(ih arena notes).1.trans ?_, (ih arena notes).2⟩
              simp [hfree]
          | some arena' =>
              have hsame := hasLeaf_inject hi
              have hall : injectAll source (i :: rest) (arena, notes) = injectAll source rest
                  (arena', notes ++ [(i.varName, "injected", source ++ " -> " ++ i.target)]) := by
                rw [injectAll, hi]
                rfl
              rw [hall]
              refine ⟨(ih arena' _).1.trans ?_, fun done h name key => ?_⟩
              · simp [hfree, hsame]
              · exact ((ih arena' _).2 done h name key).trans (hsame name key)

/-- A custom property that a component hangs on has a plain value in the other component. -/
def Overwritten (arena : Arena) : Prop :=
  ∃ c ∈ arena.values, ∃ i ∈ c.injections, HasLeaf arena i.target (.name i.varName)

/-- The custom properties are defined unless one of them has a plain value. -/
theorem finish_ancestor_error_iff (arena : Arena) :
    (∃ f, ancestor.finish arena = .error f) ↔ Overwritten arena := by
  have hloop : ∀ (cs : List Component) (acc : Arena × List (String × String × String)),
      (∀ name key, HasLeaf acc.1 name key ↔ HasLeaf arena name key) →
      ((∃ f, cs.foldlM (fun acc c => injectAll c.name c.injections acc) acc = .error f) ↔
        ∃ c ∈ cs, ∃ i ∈ c.injections, HasLeaf arena i.target (.name i.varName)) := by
    intro cs
    induction cs with
    | nil => simp [pure, Except.pure]
    | cons c cs ih =>
        rintro ⟨current, notes⟩ hsame
        obtain ⟨hfails, hkeeps⟩ := injectAll_spec c.name c.injections current notes
        simp only [hsame] at hfails
        rw [List.foldlM_cons]
        cases hc : injectAll c.name c.injections (current, notes) with
        | error f =>
            exact iff_of_true ⟨f, rfl⟩ ⟨c, List.mem_cons_self, hfails.mp ⟨f, hc⟩⟩
        | ok done =>
            have hfree : ¬ ∃ i ∈ c.injections, HasLeaf arena i.target (.name i.varName) := by
              rw [← hfails, hc]
              simp
            refine (ih done fun name key => (hkeeps done hc name key).trans (hsame name key)).trans ?_
            simp only [List.mem_cons, exists_eq_or_imp, hfree, false_or]
  exact hloop arena.values (arena, []) fun _ _ => Iff.rfl

/-- The last pass breaks off exactly when a custom property has a plain value after its visits. -/
theorem stops_ancestor (settings : Settings) (s : Session Arena) :
    Stops (ancestor.run settings) s ↔
      Overwritten ((ancestor.visit settings).run s).2.store := by
  obtain ⟨_, s', hrun⟩ := Work.exists_run_of_not_stops (neverStops_visit faultless_ancestor settings s)
  rw [Pass.run_eq, Work.stops_bind_ok hrun, stops_close, finish_ancestor_error_iff, hrun]

/-! ## All passes -/

theorem neverStops_dropLeftovers (settings : Settings) (name : String) :
    NeverStops (dropLeftovers settings name) := by
  refine Work.neverStops_store.bind fun arena => ?_
  split
  · exact Work.neverStops_pure _
  · refine Work.NeverStops.bind (Work.neverStops_forIn _ (fun selector _ => ?_) _) fun _ =>
      Work.neverStops_update _
    exact (Work.neverStops_modify _).bind fun _ => Work.neverStops_pure _

/-- The passes before the one for raised weight. -/
def earlyPasses : List Pass :=
  [universal, descendant, attributes, siblings]

theorem neverStops_earlyPasses (settings : Settings) :
    NeverStops (earlyPasses.forM fun pass => pass.run settings) := by
  refine (neverStops_run faultless_universal rfl settings).bind fun _ => ?_
  refine (neverStops_run faultless_descendant rfl settings).bind fun _ => ?_
  refine (neverStops_run faultless_attributes rfl settings).bind fun _ => ?_
  refine (neverStops_run faultless_siblings rfl settings).bind fun _ => ?_
  exact Work.neverStops_pure _

/-- The components that a piece of work leaves behind. -/
def ended (work : Work Unit) (arena : Arena) : Arena :=
  (work.run { store := arena }).2.store

/-- The components as the pass for raised weight meets them. -/
def beforeRaising (settings : Settings) : Arena → Arena :=
  ended (earlyPasses.forM fun pass => pass.run settings)

/-- The components as the custom properties are defined in them. -/
def beforeDefining (settings : Settings) : Arena → Arena :=
  ended (do
    earlyPasses.forM fun pass => pass.run settings
    specificity.run settings
    ancestor.visit settings)

/-- A pass keeps the names of the components. -/
theorem names_run {pass : Pass} (hpass : pass ∈ allPasses) (settings : Settings)
    (names : List String) :
    Keeps (fun s => s.store.names = names) (pass.run settings) := by
  refine keeps_run_of_mem hpass (P := fun arena => arena.names = names) ?_ ?_ ?_
  · intro arena name c selector body lowered h hc _
    rw [Table.names_set_of_get? hc, h]
  · intro arena name selectors h
    rw [Table.names_modify, h]
  · intro arena name c key value h hc
    rw [Table.names_set_of_get? hc, h]

/-- Lowering keeps the names of the components. -/
theorem names_lowerAll (settings : Settings) (s : Session Arena) :
    ((lowerAll settings).run s).2.store.names = s.store.names := by
  refine keeps_lowerAll (P := fun arena => arena.names = s.store.names)
    (fun pass hpass => names_run hpass settings _) ?_ s rfl
  intro arena name selectors h
  rw [Table.names_modify, h]

theorem names_beforeRaising (settings : Settings) (arena : Arena) :
    (beforeRaising settings arena).names = arena.names := by
  refine Keeps.forM (P := fun s : Session Arena => s.store.names = arena.names) _ (fun pass hpass => ?_) _ rfl
  refine names_run ?_ settings _
  simp only [earlyPasses, List.mem_cons, List.not_mem_nil, or_false] at hpass
  rcases hpass with rfl | rfl | rfl | rfl <;> simp [allPasses]

theorem alike_dropLeftovers (settings : Settings) (name : String) :
    Alike (Stores Eq) (dropLeftovers settings name) (dropLeftovers settings name) := by
  refine Alike.store_bind_eq fun arena => ?_
  split
  · exact Alike.pure _
  · refine Alike.bind (Alike.forIn _ (fun selector _ => ?_) _) fun _ => Alike.update_eq _
    exact (Alike.report (Work.oblivious_stores Eq) _ _).bind fun _ => Alike.pure _

/-- Lowering does the passes in order and drops what is left, as far as components are concerned. -/
theorem alike_lowerAll (settings : Settings) :
    Alike (Stores Eq) (lowerAll settings) (do
      allPasses.forM fun pass => pass.run settings
      (← Work.store).names.forM (dropLeftovers settings)) := by
  refine Alike.bind ?_ fun _ => Alike.store_bind_eq fun arena =>
    Alike.forM _ fun name => alike_dropLeftovers settings name
  generalize allPasses = passes
  induction passes with
  | nil => exact Alike.pure _
  | cons pass passes ih =>
      rw [List.forIn_cons]
      simp only [bind_assoc, pure_bind]
      refine Alike.trace_left (Work.oblivious_stores Eq) ?_
      refine (alike_run pass settings).bind fun _ => ?_
      exact Alike.trace_left (Work.oblivious_stores Eq) ih

theorem forM_allPasses (settings : Settings) :
    (allPasses.forM fun pass => pass.run settings) =
      (earlyPasses.forM fun pass => pass.run settings) >>= fun _ =>
        specificity.run settings >>= fun _ => ancestor.run settings >>= fun _ => pure ⟨⟩ := by
  show forM (earlyPasses ++ [specificity, ancestor]) (fun pass : Pass => pass.run settings) = _
  rw [List.forM_append]
  rfl

/-- Lowering breaks off exactly where a raised body grows or a custom property has a plain value. -/
theorem stops_lowerAll (settings : Settings) {s : Session Arena} (hnames : s.store.names.Nodup) :
    Stops (lowerAll settings) s ↔
      Overgrown (beforeRaising settings s.store) ∨ Overwritten (beforeDefining settings s.store) := by
  have hst : Stores Eq s { store := s.store } := rfl
  rw [(alike_lowerAll settings).stops_iff hst, Work.stops_bind_of_neverStops fun _ =>
    Work.neverStops_store.bind fun _ =>
      Work.neverStops_forM _ fun name => neverStops_dropLeftovers settings name]
  rw [forM_allPasses]
  obtain ⟨_, s₁, hearly⟩ :=
    Work.exists_run_of_not_stops (neverStops_earlyPasses settings { store := s.store })
  have hbefore : s₁.store = beforeRaising settings s.store := by
    unfold beforeRaising ended
    rw [hearly]
  have hnodup : s₁.store.names.Nodup := by
    rw [hbefore, names_beforeRaising]
    exact hnames
  rw [Work.stops_bind_ok hearly, ← hbefore, ← stops_specificity settings hnodup]
  by_cases hstops : Stops (specificity.run settings) s₁
  · exact iff_of_true (Work.stops_bind.mpr (.inl hstops)) (.inl hstops)
  obtain ⟨_, s₂, hraise⟩ := Work.exists_run_of_not_stops hstops
  have hdefine : ((ancestor.visit settings).run s₂).2.store = beforeDefining settings s.store := by
    unfold beforeDefining ended
    rw [Work.run_bind_ok _ hearly, Work.run_bind_ok _ hraise]
  rw [Work.stops_bind_ok hraise, or_iff_right hstops, ← hdefine, ← stops_ancestor]
  exact Work.stops_bind_of_neverStops fun _ => Work.neverStops_pure _

/-- What lowering leaves behind depends on the components alone. -/
theorem store_lowerAll (settings : Settings) (s : Session Arena) :
    ((lowerAll settings).run s).2.store = ended (lowerAll settings) s.store := by
  have hs : Stores Eq s { store := s.store } := rfl
  have hfresh : Stores Eq { store := s.store } ({ store := s.store } : Session Arena) := rfl
  exact (alike_lowerAll settings s _ hs).2.trans (alike_lowerAll settings _ _ hfresh).2.symm

end Restyle.Lowering
