import Restyle.Proofs.Helpers
import Restyle.Proofs.Lowering
import Restyle.Proofs.Rendering

/-!
# Conversions that come to an end

The stages of a conversion one after the other, each with the exact condition under which it breaks off.
A conversion gives an outcome unless one of these conditions is met; edits in conflict are none of them,
as they end in an outcome of their own.
-/

namespace Restyle.Text

/--
Whether every escape of a text denotes a whole character, as it is read from the front.  `skip` counts the
characters of an escape that has been read already; a backslash that begins no escape takes one along.
-/
def wholeFrom : Nat → List Char → Bool
  | _, [] => true
  | skip + 1, _ :: cs => wholeFrom skip cs
  | 0, c :: cs =>
    if c == '\\' then
      match after? ['u'] cs with
      | none => wholeFrom 1 cs
      | some digits =>
        match readUnitEscape? digits with
        | none => wholeFrom 1 cs
        | some (none, _) => false
        | some (some _, size) => wholeFrom size cs
    else wholeFrom 0 cs

/-- Whether no escape of a text denotes half of a surrogate pair. -/
def isWhole (s : String) : Bool :=
  wholeFrom 0 s.toList

end Restyle.Text

namespace Restyle.Conversion

open Restyle.Component (Plant)
open Restyle.Module (Declarations Findings HelperDeclaration Imports)
open Restyle.Style (Object Value)
open Work (Stops NeverStops)

/-! ## Emission -/

namespace Draft

/-- Every component comes from a declaration of the module. -/
def Declared (d : Draft) : Prop :=
  ∀ name ∈ d.arena.names, name ∈ d.declarations.styled.map (·.name)

theorem names_plans (p : Project) (d : Draft) : (d.plans p).names = d.arena.names := by
  unfold plans Plan.planAll Plan.settle Table.names
  simp only [List.map_map]
  rfl

theorem exists_statement? {d : Draft} {name : String}
    (h : name ∈ d.declarations.styled.map (·.name)) : ∃ statement, d.statement? name = some statement := by
  obtain ⟨declaration, hmem, hname⟩ := List.mem_map.mp h
  unfold statement?
  cases hfind : d.declarations.styled.reverse.find? fun s => s.name == name with
  | some found => exact ⟨found.statement, rfl⟩
  | none =>
      have hall := List.find?_eq_none.mp hfind declaration (List.mem_reverse.mpr hmem)
      exact absurd (by simpa using hname) hall

/-- Plans of declared components can be carried out. -/
theorem neverStops_carryOutAll {p : Project} {d : Draft} {plans : Table ComponentPlan}
    (h : ∀ name ∈ plans.names, name ∈ d.declarations.styled.map (·.name)) :
    NeverStops (d.carryOutAll p plans) := by
  intro s
  unfold carryOutAll
  rw [Work.stops_foldlM_iff (P := fun _ => False)]
  · simp
  · rintro ⟨name, plan⟩ hmem done s
    refine iff_of_false ?_ id
    obtain ⟨statement, hstatement⟩ := exists_statement? (h name (List.mem_map_of_mem hmem))
    unfold carryOut
    dsimp only
    rw [hstatement]
    dsimp only
    split
    · exact Work.not_stops_pure _ _
    split
    · exact Work.not_stops_pure _ _
    · exact (Work.neverStops_update _).bind
        (fun _ => (Work.neverStops_modify _).bind fun _ => Work.neverStops_pure _) s

/-- A static block stands in an animation of a module, or in an entry of its registry. -/
def Unprintable (d : Draft) : Prop :=
  (∃ h ∈ d.declarations.keyframes, ∃ frames, d.keyframes.get? h.name = some frames ∧
      Value.HasBlock (.obj frames)) ∨
    ∃ entry ∈ d.registry, Value.HasBlock (.obj (Registry.stylesOf entry.2))

theorem helperEdits_error_iff (p : Project) (d : Draft) :
    (∃ f, d.helperEdits p = .error f) ↔
      ∃ h ∈ d.declarations.keyframes, ∃ frames, d.keyframes.get? h.name = some frames ∧
        Value.HasBlock (.obj frames) := by
  have hanimation : ∀ h, (∃ f, d.animationEdits p h = .error f) ↔
      ∃ frames, d.keyframes.get? h.name = some frames ∧ Value.HasBlock (.obj frames) := by
    intro h
    unfold animationEdits
    cases d.keyframes.get? h.name with
    | none => simp
    | some frames =>
        rw [bind_pure_error_iff, Registry.keyframes_error_iff]
        simp
  unfold helperEdits
  rw [bind_pure_error_iff, mapM_error_iff]
  simp only [hanimation]

/-- A draft of declared components is emitted unless a static block would have to be printed. -/
theorem stops_emit (p : Project) {d : Draft} (hdeclared : d.Declared) (s : Session (List Message)) :
    Stops (d.emit p) s ↔ d.Unprintable := by
  have hcarry : NeverStops (Work.phase "Wrappers" "declaration replacement"
      (d.carryOutAll p (d.plans p))) := by
    intro s
    rw [Work.stops_phase]
    refine neverStops_carryOutAll (fun name hmem => hdeclared name ?_) _
    rwa [names_plans] at hmem
  unfold emit Unprintable
  rw [← helperEdits_error_iff p d, ← Registry.declaration_error_iff (d.dialect p) d.registry]
  obtain ⟨components, s₁, hrun⟩ := Work.exists_run_of_not_stops (hcarry
    { s with trace := Plan.notePlans (d.plans p) s.trace })
  dsimp only
  rw [Work.stops_bind_ok (Work.run_trace _ s), Work.stops_bind_ok hrun]
  cases hhelpers : d.helperEdits p with
  | error f =>
      refine iff_of_true (Work.stops_bind.mpr (.inl ?_)) (.inl ⟨f, rfl⟩)
      exact Work.stops_ofExcept.mpr ⟨f, rfl⟩
  | ok helpers =>
      rw [Work.stops_bind_ok (Work.run_ofExcept (.ok helpers) s₁), or_iff_right nofun]
      refine (Work.stops_bind_ok (Work.run_phase _ _ _ s₁)).trans ?_
      refine (Work.stops_bind_of_neverStops fun text => ?_).trans Work.stops_ofExcept
      exact (Work.neverStops_modify _).bind fun _ => Work.neverStops_pure _

end Draft

/-! ## Building -/

/-- The parts of a module are built unless a helper or a component of it breaks off. -/
theorem stops_buildParts (plant : Plant) (d : Declarations) (excluded : List String)
    (hkeys : plant.env.mixinKeys = d.mixinKeys) (s : Session (List Message)) :
    Stops (buildParts plant d excluded) s ↔
      (∃ h ∈ d.keyframes, plant.FrameClash h) ∨
      (∃ m ∈ d.mixins, plant.Clash m.template (Component.scratch m)) ∨
      LosesKey plant d.mixins ∨
      ∃ c ∈ d.styled, excluded.contains c.name = false ∧
        plant.Clash c.template (Component.started c) := by
  have hhelpers : Stops (Work.phase "Helpers" "keyframes and css mixins"
      (Work.on emptyWorkshop (buildHelpers plant d))) s ↔
        (∃ h ∈ d.keyframes, plant.FrameClash h) ∨
        (∃ m ∈ d.mixins, plant.Clash m.template (Component.scratch m)) ∨
        LosesKey plant d.mixins := by
    rw [Work.stops_phase, Work.stops_on, stops_buildHelpers plant d hkeys]
  rw [← or_assoc (b := ∃ m ∈ d.mixins, _), ← or_assoc, or_assoc (b := ∃ m ∈ d.mixins, _), ← hhelpers]
  unfold buildParts
  by_cases hstops : Stops (Work.phase "Helpers" "keyframes and css mixins"
      (Work.on emptyWorkshop (buildHelpers plant d))) s
  · exact iff_of_true (Work.stops_bind.mpr (.inl hstops)) (.inl hstops)
  obtain ⟨⟨helpers, workshop⟩, s', hrun⟩ := Work.exists_run_of_not_stops hstops
  rw [Work.stops_bind_ok hrun, or_iff_right hstops]
  refine (Work.stops_bind_of_neverStops fun _ => Work.neverStops_pure _).trans ?_
  rw [Work.stops_phase, Work.stops_on, stops_buildComponents]
  simp only [← Component.clash_withKeys plant helpers.mixinKeys]

/-- The components that have been built have distinct names, all of them declared. -/
theorem names_buildComponents {plant : Plant} {d : Declarations} {excluded : List String}
    {built : Arena × List String} {s s' : Session Component.Workshop}
    (h : (buildComponents plant d excluded).run s = (.ok built, s')) :
    built.1.names.Nodup ∧ ∀ name ∈ built.1.names, name ∈ d.styled.map (·.name) := by
  refine Work.foldlM_keeps (P := fun built : Arena × List String =>
    built.1.names.Nodup ∧ ∀ name ∈ built.1.names, name ∈ d.styled.map (·.name)) ?_ ⟨?_, ?_⟩ h
  · rintro c hc ⟨arena, skipped⟩ s built s' hkept hrun
    dsimp only at hrun
    split at hrun
    · cases hrun
      exact hkept
    · obtain ⟨c?, s₁, -, hrun⟩ := Work.run_bind_eq_ok hrun
      cases c? with
      | none =>
          cases hrun
          exact hkept
      | some made =>
          cases hrun
          refine ⟨Table.nodup_names_set hkept.1 _ _, fun name hname => ?_⟩
          rw [Table.names_set] at hname
          split at hname
          · exact hkept.2 name hname
          · rcases List.mem_append.mp hname with hname | hname
            · exact hkept.2 name hname
            · cases List.mem_singleton.mp hname
              exact List.mem_map_of_mem hc
  · exact List.nodup_nil
  · exact nofun

theorem names_buildParts {plant : Plant} {d : Declarations} {excluded : List String} {parts : Parts}
    {s s' : Session (List Message)}
    (h : (buildParts plant d excluded).run s = (.ok parts, s')) :
    parts.arena.names.Nodup ∧ ∀ name ∈ parts.arena.names, name ∈ d.styled.map (·.name) := by
  obtain ⟨⟨helpers, workshop⟩, s₁, -, h⟩ := Work.run_bind_eq_ok h
  obtain ⟨⟨⟨arena, skipped⟩, workshop'⟩, s₂, hrun, h⟩ := Work.run_bind_eq_ok h
  cases h
  obtain ⟨s₃, s₄, -, hrun⟩ := Work.run_phase_eq_ok hrun
  obtain ⟨s₅, s₆, -, -, hrun⟩ := Work.run_on_eq_ok hrun
  exact names_buildComponents hrun

/-! ## The stages of a module -/

/-- The declarations of a module. -/
def declarationsOf (m : Module) : Declarations :=
  Declarations.ofModule m (Imports.ofModule m).libraryNames

/-- What has no counterpart in a module. -/
def findingsOf (m : Module) : Findings :=
  Module.findUnsupported m (declarationsOf m) (Imports.ofModule m).libraryNames {}

/-- A module that can be read, uses the library, has declarations, and is not to be left alone. -/
structure Convertible (p : Project) (m : Module) : Prop where
  readable : m.hasErrors = false
  imported : (Imports.ofModule m).libraryNames.isEmpty = false
  declared : (declarationsOf m).isEmpty = false
  allowed : (p.settings.isStrict && (findingsOf m).found) = false

/-- What building the parts of a module draws on. -/
def plantOf (p : Project) (m : Module) : Plant :=
  plant p m (Imports.ofModule m) (declarationsOf m)

/-- The session in which the parts of a module are built. -/
def startOf (m : Module) : Session (List Message) :=
  { diagnostics := (findingsOf m).diagnostics, trace := ({} : Trace).startPhase "Transform" m.path
    store := [] }

/-- The parts of a module have been built. -/
def Built (p : Project) (m : Module) (parts : Parts) : Prop :=
  ∃ s, (buildParts (plantOf p m) (declarationsOf m) (findingsOf m).skipped).run (startOf m) =
    (.ok parts, s)

/-- What lowering knows about a module. -/
def settingsOf (p : Project) (m : Module) : Lowering.Settings :=
  loweringSettings p (Imports.ofModule m)

/-- The components of a module after lowering. -/
def loweredOf (p : Project) (m : Module) (parts : Parts) : Arena :=
  Lowering.ended (Lowering.lowerAll (settingsOf p m)) parts.arena

/-- The ways in which the conversion of a module breaks off. -/
inductive Breaks (p : Project) (m : Module) : Prop where
  /-- A rule of an animation runs into a plain value, or a slot of it has no answer. -/
  | frame {h : HelperDeclaration} :
      h ∈ (declarationsOf m).keyframes → (plantOf p m).FrameClash h → Breaks p m
  /-- The same in a mixin. -/
  | mixin {h : HelperDeclaration} :
      h ∈ (declarationsOf m).mixins → (plantOf p m).Clash h.template (Component.scratch h) → Breaks p m
  /-- A mixin is converted after another one of its name was not. -/
  | lostKey : LosesKey (plantOf p m) (declarationsOf m).mixins → Breaks p m
  /-- The same as in a mixin, in a component that is not left out. -/
  | component {c : Module.StyledDeclaration} :
      c ∈ (declarationsOf m).styled → (findingsOf m).skipped.contains c.name = false →
      (plantOf p m).Clash c.template (Component.started c) → Breaks p m
  /-- A body with raised weight gets new keys while it is merged into itself. -/
  | growth {parts : Parts} : Built p m parts →
      Lowering.Overgrown (Lowering.beforeRaising (settingsOf p m) parts.arena) → Breaks p m
  /-- A custom property that another component hangs on has a plain value. -/
  | definition {parts : Parts} : Built p m parts →
      Lowering.Overwritten (Lowering.beforeDefining (settingsOf p m) parts.arena) → Breaks p m
  /-- A style function gives a plain value to a pseudo-element that it writes into later. -/
  | function {parts : Parts} {c : Component} : Built p m parts →
      c ∈ (loweredOf p m parts).values → Registry.Unwritable c.dynamicEntries → Breaks p m
  /-- A static block stands in an animation. -/
  | animation {parts : Parts} {h : HelperDeclaration} {frames : Object} : Built p m parts →
      h ∈ (declarationsOf m).keyframes → parts.helpers.keyframes.get? h.name = some frames →
      Value.HasBlock (.obj frames) → Breaks p m
  /-- A static block stands in an entry of the registry. -/
  | entry {parts : Parts} {registry : Registry} {key : String} {e : RegistryEntry} : Built p m parts →
      Registry.ofComponents parts.helpers.mixins (loweredOf p m parts) = .ok registry →
      (key, e) ∈ registry → Value.HasBlock (.obj (Registry.stylesOf e)) → Breaks p m

/-! ## The whole conversion -/

/-- The draft of a module whose registry is known. -/
def draftOf (p : Project) (m : Module) (parts : Parts) (registry : Registry) : Draft :=
  { source := m, imports := Imports.ofModule m, declarations := declarationsOf m
    arena := loweredOf p m parts, mixinKeys := parts.helpers.mixinKeys
    keyframes := parts.helpers.keyframes, registry, requested := parts.requested }

/-- What is left to do once the parts have been built. -/
def finishParts (p : Project) (m : Module) (parts : Parts) : Converting Verdict := do
  let (_, arena) ← Work.on parts.arena (Lowering.lowerAll (settingsOf p m))
  let registry ←
    Work.phase "Aggregation" "stylex.create registry"
      (Work.ofExcept (Registry.ofComponents parts.helpers.mixins arena))
  let draft : Draft :=
    { source := m, imports := Imports.ofModule m, declarations := declarationsOf m, arena
      mixinKeys := parts.helpers.mixinKeys, keyframes := parts.helpers.keyframes, registry
      requested := parts.requested }
  match ← draft.emit p with
  | .error conflict => abandon m.path conflict.message
  | .ok (code, failed) =>
    return {
      code := some code
      converted := arena.names.filter fun name => !failed.contains name
      skipped := parts.skipped ++ failed
      styleKeys := Table.names registry }

theorem neverStops_abandon (path reason : String) : NeverStops (abandon path reason) :=
  (Work.neverStops_update _).bind fun _ =>
    (Work.neverStops_modify _).bind fun _ => Work.neverStops_pure _

/-- Built parts are brought to an end unless one of the later stages breaks off. -/
theorem stops_finishParts {p : Project} {m : Module} {parts : Parts} (hbuilt : Built p m parts)
    (s : Session (List Message)) :
    Stops (finishParts p m parts) s ↔
      Lowering.Overgrown (Lowering.beforeRaising (settingsOf p m) parts.arena) ∨
      Lowering.Overwritten (Lowering.beforeDefining (settingsOf p m) parts.arena) ∨
      (∃ c ∈ (loweredOf p m parts).values, Registry.Unwritable c.dynamicEntries) ∨
      ∃ registry, Registry.ofComponents parts.helpers.mixins (loweredOf p m parts) = .ok registry ∧
        (draftOf p m parts registry).Unprintable := by
  obtain ⟨s₀, hparts⟩ := hbuilt
  obtain ⟨hnodup, hdeclared⟩ := names_buildParts hparts
  have hlower : Stops (Work.on parts.arena (Lowering.lowerAll (settingsOf p m))) s ↔
      Lowering.Overgrown (Lowering.beforeRaising (settingsOf p m) parts.arena) ∨
      Lowering.Overwritten (Lowering.beforeDefining (settingsOf p m) parts.arena) := by
    rw [Work.stops_on]
    exact Lowering.stops_lowerAll _ hnodup
  rw [← or_assoc, ← hlower, ← Registry.ofComponents_error_iff parts.helpers.mixins]
  by_cases hstops : Stops (Work.on parts.arena (Lowering.lowerAll (settingsOf p m))) s
  · exact iff_of_true (Work.stops_bind.mpr (.inl hstops)) (.inl hstops)
  obtain ⟨⟨_, arena⟩, s₁, hrun⟩ := Work.exists_run_of_not_stops hstops
  have harena : arena = loweredOf p m parts := by
    obtain ⟨s₂, s₃, hbefore, hafter, hrun⟩ := Work.run_on_eq_ok hrun
    have h := Lowering.store_lowerAll (settingsOf p m) s₂
    rw [hrun, hbefore] at h
    exact hafter.symm.trans h
  subst harena
  unfold finishParts
  rw [Work.stops_bind_ok hrun, or_iff_right hstops]
  cases hregistry : Registry.ofComponents parts.helpers.mixins (loweredOf p m parts) with
  | error f =>
      refine iff_of_true (Work.stops_bind.mpr (.inl ?_)) (.inl ⟨f, rfl⟩)
      rw [Work.stops_phase, hregistry, Work.stops_ofExcept]
      exact ⟨f, rfl⟩
  | ok registry =>
      have hphase : (Work.phase "Aggregation" "stylex.create registry"
          (Work.ofExcept (.ok registry)) : Converting Registry).run s₁ =
            (.ok registry, { s₁ with trace := (s₁.trace.startPhase "Aggregation"
              "stylex.create registry").endPhase }) := rfl
      have hdraft : (draftOf p m parts registry).Declared := by
        intro name hname
        refine hdeclared name ?_
        rwa [← Lowering.names_lowerAll (settingsOf p m) { store := parts.arena }]
      dsimp only
      rw [hregistry, Work.stops_bind_ok hphase, or_iff_right (by simp)]
      simp only [Except.ok.injEq, exists_eq_left']
      refine (Work.stops_bind_of_neverStops fun result => ?_).trans (Draft.stops_emit p hdraft _)
      cases result with
      | error conflict => exact neverStops_abandon _ _
      | ok emitted => exact Work.neverStops_pure _

theorem convertDeclarations_eq (p : Project) (m : Module) :
    convertDeclarations p m (Imports.ofModule m) (declarationsOf m) (findingsOf m) =
      buildParts (plantOf p m) (declarationsOf m) (findingsOf m).skipped >>= finishParts p m := rfl

/-- The declarations of a module are converted unless a stage breaks off. -/
theorem stops_convertDeclarations (p : Project) (m : Module) :
    Stops (convertDeclarations p m (Imports.ofModule m) (declarationsOf m) (findingsOf m))
      (startOf m) ↔ Breaks p m := by
  have hbuild := stops_buildParts (plantOf p m) (declarationsOf m) (findingsOf m).skipped rfl (startOf m)
  rw [convertDeclarations_eq, Work.stops_bind, hbuild]
  constructor
  · rintro ((⟨h, hmem, hclash⟩ | ⟨h, hmem, hclash⟩ | hlost | ⟨c, hmem, hkept, hclash⟩) |
      ⟨parts, s, hrun, hstops⟩)
    · exact .frame hmem hclash
    · exact .mixin hmem hclash
    · exact .lostKey hlost
    · exact .component hmem hkept hclash
    · have hbuilt : Built p m parts := ⟨s, hrun⟩
      rcases (stops_finishParts hbuilt s).mp hstops with hgrows | hwritten | ⟨c, hmem, hfails⟩ |
        ⟨registry, hregistry, ⟨h, hmem, frames, hframes, hblock⟩ | ⟨⟨key, e⟩, hmem, hblock⟩⟩
      · exact .growth hbuilt hgrows
      · exact .definition hbuilt hwritten
      · exact .function hbuilt hmem hfails
      · exact .animation hbuilt hmem hframes hblock
      · exact .entry hbuilt hregistry hmem hblock
  · intro hbreaks
    have hlater : ∀ parts, Built p m parts → (∀ s, Stops (finishParts p m parts) s) →
        ∃ parts s, (buildParts (plantOf p m) (declarationsOf m) (findingsOf m).skipped).run (startOf m) =
          (.ok parts, s) ∧ Stops (finishParts p m parts) s :=
      fun parts ⟨s, hrun⟩ hstops => ⟨parts, s, hrun, hstops s⟩
    cases hbreaks with
    | frame hmem hclash => exact .inl (.inl ⟨_, hmem, hclash⟩)
    | mixin hmem hclash => exact .inl (.inr (.inl ⟨_, hmem, hclash⟩))
    | lostKey hlost => exact .inl (.inr (.inr (.inl hlost)))
    | component hmem hkept hclash => exact .inl (.inr (.inr (.inr ⟨_, hmem, hkept, hclash⟩)))
    | growth hbuilt hgrows =>
        exact .inr (hlater _ hbuilt fun s => (stops_finishParts hbuilt s).mpr (.inl hgrows))
    | definition hbuilt hwritten =>
        exact .inr (hlater _ hbuilt fun s => (stops_finishParts hbuilt s).mpr (.inr (.inl hwritten)))
    | function hbuilt hmem hfails =>
        refine .inr (hlater _ hbuilt fun s => (stops_finishParts hbuilt s).mpr ?_)
        exact .inr (.inr (.inl ⟨_, hmem, hfails⟩))
    | @animation parts h frames hbuilt hmem hframes hblock =>
        refine .inr (hlater _ hbuilt fun s => (stops_finishParts hbuilt s).mpr ?_)
        cases hregistry : Registry.ofComponents parts.helpers.mixins (loweredOf p m parts) with
        | error f =>
            have hfails := (Registry.ofComponents_error_iff _ _).mp ⟨f, hregistry⟩
            exact .inr (.inr (.inl hfails))
        | ok registry =>
            exact .inr (.inr (.inr ⟨registry, rfl, .inl ⟨h, hmem, frames, hframes, hblock⟩⟩))
    | entry hbuilt hregistry hmem hblock =>
        refine .inr (hlater _ hbuilt fun s => (stops_finishParts hbuilt s).mpr ?_)
        exact .inr (.inr (.inr ⟨_, hregistry, .inr ⟨_, hmem, hblock⟩⟩))

theorem read_path (code path : String) : (Module.read code path).path = path := by
  unfold Module.read
  dsimp only
  split <;> rfl

/-- The session in which a module is read. -/
def opening (path : String) : Session (List Message) :=
  { trace := ({} : Trace).startPhase "Transform" path, store := [] }

/-- A module is converted unless it is convertible and a stage breaks off. -/
theorem stops_convertModule (p : Project) (m : Module) :
    Stops (convertModule p m) (opening m.path) ↔ Convertible p m ∧ Breaks p m := by
  unfold convertModule
  dsimp only
  by_cases hreadable : m.hasErrors = true
  · rw [if_pos hreadable]
    refine iff_of_false ?_ fun h => nomatch hreadable.symm.trans h.1.readable
    exact (Work.neverStops_modify _).bind (fun _ => Work.neverStops_pure _) _
  rw [if_neg hreadable]
  by_cases himported : (Imports.ofModule m).libraryNames.isEmpty = true
  · rw [if_pos himported]
    exact iff_of_false (Work.not_stops_pure _ _) fun h => nomatch himported.symm.trans h.1.imported
  rw [if_neg himported]
  refine (Work.stops_bind_ok (Work.run_get _)).trans ?_
  refine (Work.stops_bind_ok (Work.run_modify _ _)).trans ?_
  change Stops (if (declarationsOf m).isEmpty = true then _ else
    if (p.settings.isStrict && (findingsOf m).found) = true then _ else
      convertDeclarations p m (Imports.ofModule m) (declarationsOf m) (findingsOf m)) (startOf m) ↔ _
  by_cases hdeclared : (declarationsOf m).isEmpty = true
  · rw [if_pos hdeclared]
    exact iff_of_false (Work.not_stops_pure _ _) fun h => nomatch hdeclared.symm.trans h.1.declared
  rw [if_neg hdeclared]
  by_cases hallowed : (p.settings.isStrict && (findingsOf m).found) = true
  · rw [if_pos hallowed]
    refine iff_of_false ?_ fun h => nomatch hallowed.symm.trans h.1.allowed
    exact (Work.neverStops_update _).bind (fun _ => Work.neverStops_pure _) _
  rw [if_neg hallowed, stops_convertDeclarations]
  have hconvertible : Convertible p m :=
    { readable := by simpa using hreadable
      imported := by simpa using himported
      declared := by simpa using hdeclared
      allowed := by simpa using hallowed }
  exact (and_iff_right hconvertible).symm

/-- A conversion gives an outcome unless its text is convertible and a stage breaks off. -/
theorem exists_outcome_iff (p : Project) (code path : String) :
    (∃ outcome, run p code path = .ok outcome) ↔
      ¬ (Convertible p (Module.read code path) ∧ Breaks p (Module.read code path)) := by
  rw [← stops_convertModule, read_path]
  unfold run Stops
  dsimp only
  rw [Work.run_bind_ok _ (Work.run_trace _ _), Work.run_bind]
  dsimp only
  rw [show ({ trace := ({} : Trace).startPhase "Transform" path, store := [] } :
    Session (List Message)) = opening path from rfl]
  cases (convertModule p (Module.read code path)).run (opening path) with
  | mk result s =>
      cases result with
      | error f => simp
      | ok verdict => exact iff_of_true ⟨_, rfl⟩ (by simp)

/--
What is given to a conversion.  Escapes in the module, and in the expressions that the adapter answers for
values, denote whole characters: half of a surrogate pair has no place in a text, and where the conversion
writes one nothing is said of it here.
-/
structure Input where
  project : Project
  code : String
  path : String
  /-- No escape of the module denotes half of a surrogate pair. -/
  whole : Text.isWhole code = true
  /-- No escape in an expression for a value denotes half of a surrogate pair. -/
  wholeValues : ∀ query result,
    Adapter.answer Adapter.ValueResult.ofData? (project.adapter.resolveValue query) = .ok (some result) →
      Text.isWhole result.expr = true

namespace Input

/-- The module that a conversion reads. -/
def source (i : Input) : Module :=
  Module.read i.code i.path

end Input

end Restyle.Conversion
