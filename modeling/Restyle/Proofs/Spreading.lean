import Restyle.Proofs.Completion
import Restyle.Proofs.Deciding
import Restyle.Proofs.Reading
import Restyle.Proofs.Scoping

/-!
# Mixins and their references

A component that spreads a mixin of its module refers to the entry of the mixin.  Mixins are built before
components, and one that does not come out as plain styles loses its key; but slots are still classified by
all declared names, and a mixin without a key is referred to by its bare name.  So the references of
components have entries exactly if every mixin that is spread has been converted.
-/

namespace Restyle.Table

variable {α : Type}

/-- Erasing a name leaves what is found under others, and nothing under the name. -/
theorem get?_of_get?_erase {t : Table α} (hnodup : t.names.Nodup) {name other : String} {value : α}
    (h : (t.erase name).get? other = some value) : other ≠ name ∧ t.get? other = some value := by
  constructor
  · rintro rfl
    have hmem := mem_names_of_get? h
    rw [names_erase] at hmem
    exact absurd hmem hnodup.not_mem_erase
  · induction t with
    | nil => exact h
    | cons entry t ih =>
        obtain ⟨k, v⟩ := entry
        have hrest := (List.nodup_cons.mp hnodup).2
        rw [erase] at h
        rw [get?]
        split at h
        · next hk =>
            have hmem : k ∉ names t := (List.nodup_cons.mp hnodup).1
            have hne : k ≠ other := by
              rintro rfl
              exact hmem (mem_names_of_get? h)
            rw [if_neg hne]
            exact h
        · rw [get?] at h
          split at h
          · next hother => rwa [if_pos hother]
          · next hother =>
              rw [if_neg hother]
              exact ih hrest h

end Restyle.Table

namespace Restyle.Interpolation

/-! ## Slots for mixins -/

/-- A slot that names a mixin names one of the module, and is left to the handler for helpers. -/
theorem mem_mixins_of_classify {around : Surroundings} {index : Int} {n : Tsx.Node} {name : String}
    (h : (classify around index n).mixinName = some name) :
    (classify around index n).tag = .helperCall ∧ name ∈ around.mixins := by
  unfold classify at h ⊢
  dsimp only at h ⊢
  by_cases hname : n.unwrap.isIdentifier = true
  · rw [if_pos hname] at h ⊢
    by_cases hframes : around.keyframes.contains n.unwrap.text = true
    · rw [if_pos hframes] at h
      cases h
    rw [if_neg hframes] at h ⊢
    by_cases hmixin : around.mixins.contains n.unwrap.text = true
    · rw [if_pos hmixin] at h ⊢
      cases h
      exact ⟨rfl, List.contains_iff_mem.mp hmixin⟩
    · rw [if_neg hmixin] at h
      cases h
  · rw [if_neg hname] at h
    split at h
    · next f hf =>
        exfalso
        cases hc : f.body.bind (classifyArrow? around
            { source := n.text, index, node := some n, param := f.param } f) with
        | none =>
            rw [hc] at h
            cases h
        | some c =>
            obtain ⟨body, -, harrow⟩ := Option.bind_eq_some_iff.mp hc
            rw [hc] at h
            cases (frame_of_classifyArrow? harrow).2.symm.trans h
    · exfalso
      cases hc : classifyCall? around { source := n.text, index, node := some n } n.unwrap with
      | none =>
          rw [hc] at h
          cases h
      | some c =>
          rw [hc] at h
          cases (frame_of_classifyCall? hc).2.symm.trans h

/-- The decision on a slot for a mixin. -/
def mixinDecision (env : Environment) (name : String) (place : Place) : Decision :=
  if place.isBlock then
    if place.isNested then .bail .importedMixinPseudo
    else .reference (env.stylesName ++ "." ++ (env.mixinKeys.get? name).getD name)
  else .bail .unsupportedIdentifier

theorem handled_mixin_iff {env : Environment} {c : Classified} {place : Place} {name : String}
    (htag : c.tag = .helperCall) (hname : c.mixinName = some name) (hsome : name.isEmpty = false)
    (d : Decision) : Handled env c place d ↔ d = mixinDecision env name place := by
  have hhelper : decideByTag env c place = pure (some (mixinDecision env name place)) := by
    unfold decideByTag decideHelper mixinDecision
    rw [htag, hname]
    simp only [Option.filter, hsome, Bool.not_false, if_true]
    cases place.isBlock <;> cases place.isNested <;> rfl
  unfold Handled
  rw [hhelper]
  constructor
  · rintro ⟨t, t', hrun⟩
    cases hrun
    rfl
  · rintro rfl
    exact ⟨{}, {}, rfl⟩

end Restyle.Interpolation

namespace Restyle.Component

open Restyle.Interpolation (Classified Decision Place)
open Restyle.Style (SlotRequest)
open Restyle.Tsx (Node)

/-- A reference is recorded without a report. -/
theorem reports_reference (c : Component) (code : String) (classified : Classified) (place : Place) :
    (c.record (.reference code) classified place).reports = [] := by
  unfold record
  dsimp only
  split <;> rfl

/-- A decision on a slot is reported and adds no reference, whatever there is of the component. -/
def Plant.Refuses (plant : Plant) (slot : Css.PlacedSlot Node) (request : SlotRequest) (start : Component)
    (d : Decision) : Prop :=
  ∀ c : Component,
    (c.record d (plant.classified slot request) (start.placeOf request)).reports ≠ [] ∧
      (c.record d (plant.classified slot request) (start.placeOf request)).component.mixinRefs = c.mixinRefs

theorem refuses_bail (plant : Plant) (slot : Css.PlacedSlot Node) (request : SlotRequest) (start : Component)
    (reason : DiagnosticKind) : plant.Refuses slot request start (.bail reason) := by
  intro c
  constructor
  · exact List.ne_nil_of_mem (reports_bail c reason [] none _ _)
  · exact (record_withRefs c [] (.bail reason) nofun _ _).2

theorem not_refuses_reference (plant : Plant) (slot : Css.PlacedSlot Node) (request : SlotRequest)
    (start : Component) (code : String) : ¬ plant.Refuses slot request start (.reference code) :=
  fun h => (h start).1 (reports_reference start code _ _)

/-- A slot stands for a mixin of the module, and no handler of the adapter takes it. -/
structure Plant.StandsFor (plant : Plant) (slot : Css.PlacedSlot Node) (request : SlotRequest) (c : Component)
    (name : String) : Prop where
  left : Interpolation.decideByAdapter plant.env (plant.classified slot request) (c.placeOf request) = none
  mixin : (plant.classified slot request).mixinName = some name
  named : name.isEmpty = false

namespace Plant.StandsFor

variable {plant : Plant} {slot : Css.PlacedSlot Node} {request : SlotRequest} {c : Component} {name : String}

theorem mem_mixins (h : plant.StandsFor slot request c name) : name ∈ plant.env.around.mixins :=
  (Interpolation.mem_mixins_of_classify h.mixin).2

theorem handles_iff (h : plant.StandsFor slot request c name) (d : Decision) :
    plant.Handles slot request c d ↔ d = Interpolation.mixinDecision plant.env name (c.placeOf request) := by
  have htag := (Interpolation.mem_mixins_of_classify h.mixin).1
  rw [← Interpolation.handled_mixin_iff htag h.mixin h.named]
  exact ⟨Plant.Handles.handled, Plant.Handles.mk h.left⟩

end Plant.StandsFor

end Restyle.Component

namespace Restyle.Conversion

open Restyle.Component (Plant)
open Restyle.Interpolation (Decision)
open Restyle.Module (HelperDeclaration StyledDeclaration)
open Restyle.Style (SlotRequest)
open Restyle.Tsx (Node)

/-! ## Mixins and their keys -/

/-- Mixins that have been built step by step: no key is new, no entry is lost, and a mixin with a key has an
entry. -/
theorem entries_after {plant : Plant} {mixins : List HelperDeclaration} {helpers after : Helpers}
    (hnodup : helpers.mixinKeys.names.Nodup) (h : mixins.foldlM (withMixin plant) helpers = .ok after) :
    (∀ name key, after.mixinKeys.get? name = some key → helpers.mixinKeys.get? name = some key) ∧
      helpers.mixins.names ⊆ after.mixins.names ∧
      ∀ mixin ∈ mixins, ∀ key, after.mixinKeys.get? mixin.name = some key → key ∈ after.mixins.names := by
  induction mixins generalizing helpers with
  | nil =>
      cases h
      exact ⟨fun _ _ => id, List.Subset.refl _, List.forall_mem_nil _⟩
  | cons first mixins ih =>
      rw [List.foldlM_cons] at h
      cases hfirst : withMixin plant helpers first with
      | error f =>
          rw [hfirst] at h
          cases h
      | ok next =>
          rw [hfirst] at h
          unfold withMixin at hfirst
          split at hfirst
          · cases hfirst
          · -- the first mixin is rejected, so its key is gone
            cases hfirst
            obtain ⟨hkeys, hentries, hall⟩ := ih (by rw [Table.names_erase]; exact hnodup.erase _) h
            have hkept := fun name key hkey => Table.get?_of_get?_erase hnodup (hkeys name key hkey)
            refine ⟨fun name key hkey => (hkept name key hkey).2, hentries, List.forall_mem_cons.mpr ⟨?_, hall⟩⟩
            exact fun key hkey => absurd rfl (hkept first.name key hkey).1
          · split at hfirst
            · cases hfirst
            · next key hkey =>
                -- the first mixin is accepted, so there is an entry under its key
                cases hfirst
                obtain ⟨hkeys, hentries, hall⟩ :=
                  @ih { helpers with mixins := helpers.mixins.set key _ } hnodup h
                refine ⟨hkeys, fun other hother => hentries ?_, List.forall_mem_cons.mpr ⟨?_, hall⟩⟩
                · exact (Table.mem_names_set _ _ _ _).mpr (.inr hother)
                · intro found hfound
                  cases hkey.symm.trans (hkeys first.name found hfound)
                  exact hentries ((Table.mem_names_set _ _ _ _).mpr (.inl rfl))

/-- Every declaration of a mixin comes out as plain styles. -/
def Converted (p : Project) (m : Module) (name : String) : Prop :=
  ∀ mixin ∈ (declarationsOf m).mixins, mixin.name = name → Accepts (plantOf p m) mixin

section

variable {p : Project} {m : Module} {parts : Parts}

/-- The mixins of built parts have been built one after the other, from the keys of all of them. -/
theorem Built.exists_start (h : Built p m parts) : ∃ helpers : Helpers,
    helpers.mixinKeys = (declarationsOf m).mixinKeys ∧
      (declarationsOf m).mixins.foldlM (withMixin (plantOf p m)) helpers = .ok parts.helpers := by
  obtain ⟨s, hparts⟩ := h
  obtain ⟨⟨helpers, workshop⟩, s₁, hhelpers, hparts⟩ := Work.run_bind_eq_ok hparts
  obtain ⟨⟨⟨arena, skipped⟩, workshop'⟩, s₂, -, hparts⟩ := Work.run_bind_eq_ok hparts
  cases hparts
  obtain ⟨s₃, s₄, -, hhelpers⟩ := Work.run_phase_eq_ok hhelpers
  obtain ⟨s₅, s₆, -, -, hhelpers⟩ := Work.run_on_eq_ok hhelpers
  obtain ⟨start, s₇, hanimations, hmixins⟩ := Work.run_bind_eq_ok hhelpers
  refine ⟨start, mixinKeys_addAnimations hanimations, ?_⟩
  rw [← run_foldlM_fst (declarationsOf m).mixins
    (fun mixin _ helpers s => run_addMixin_fst (plantOf p m) helpers mixin s) start s₇, hmixins]

/-- A converted mixin has a key, and an entry under it. -/
theorem Built.exists_entry (h : Built p m parts) {name : String} (hname : name ∈ (plantOf p m).env.around.mixins)
    (hconverted : Converted p m name) :
    ∃ key ∈ parts.helpers.mixins.names, parts.helpers.mixinKeys.get? name = some key := by
  obtain ⟨start, hkeys, hmixins⟩ := h.exists_start
  have hnodup : start.mixinKeys.names.Nodup := by
    rw [hkeys]
    exact mixinKeys_nodup _
  obtain ⟨mixin, hmem, rfl⟩ := List.mem_map.mp hname
  have hkept : mixin.name ∈ parts.helpers.mixinKeys.names := by
    rw [mem_mixinKeys_after hnodup hmixins, hkeys]
    refine ⟨name_mem_mixinKeys hmem, fun other hother heq hrejects => ?_⟩
    obtain ⟨styles, haccepts⟩ := hconverted other hother heq
    cases haccepts.symm.trans hrejects
  obtain ⟨key, hkey⟩ := Table.exists_get?_of_mem_names hkept
  exact ⟨key, (entries_after hnodup hmixins).2.2 mixin hmem key hkey, hkey⟩

/-! ## References of components -/

/-- What the components of a module are built with, once its mixins have been. -/
def componentPlant (p : Project) (m : Module) (parts : Parts) : Plant :=
  withKeys (plantOf p m) parts.helpers.mixinKeys

/-- A component of a module is built, and a slot that stands for a mixin is decided on the way. -/
structure MixinSite (p : Project) (m : Module) (parts : Parts) (d : StyledDeclaration)
    (template : Css.Template Node) (request : SlotRequest) (slot : Css.PlacedSlot Node) (name : String) :
    Prop where
  declared : d ∈ (declarationsOf m).styled
  kept : (findingsOf m).skipped.contains d.name = false
  read : Css.Template.read d.template.segments d.template.expressions = .ok template
  built : ∃ s c s', (Component.build? (componentPlant p m parts) d).run s = (.ok (some c), s')
  decided : request ∈ (componentPlant p m parts).due template (Component.started d)
    (((componentPlant p m parts).answers template (Component.started d)).uses {} template.root)
  known : template.slot? request.index = some slot
  stands : (componentPlant p m parts).StandsFor slot request (Component.started d) name

/--
The references of components to mixins have entries, and a mixin that is not converted is reported where it is
spread.
-/
structure MixinsResolve (p : Project) (m : Module) (parts : Parts) : Prop where
  /-- A reference that the slot for a mixin adds names an entry of the mixins. -/
  resolves : ∀ {d template request slot name}, MixinSite p m parts d template request slot name →
    ∀ {ref}, (componentPlant p m parts).Handles slot request (Component.started d) (.reference ref) →
      ∃ key ∈ parts.helpers.mixins.names, ref = p.settings.stylesName ++ "." ++ key
  /-- The slot for a mixin that is not converted is reported and adds no reference. -/
  reported : ∀ {d template request slot name}, MixinSite p m parts d template request slot name →
    ¬ Converted p m name →
    ∀ {decision}, (componentPlant p m parts).Handles slot request (Component.started d) decision →
      (componentPlant p m parts).Refuses slot request (Component.started d) decision

/-- Every mixin that a component spreads, in the place of a declaration of its own, has been converted. -/
def SpreadsConverted (p : Project) (m : Module) (parts : Parts) : Prop :=
  ∀ {d template request slot name}, MixinSite p m parts d template request slot name →
    ((Component.started d).placeOf request).isBlock = true →
    ((Component.started d).placeOf request).isNested = false → Converted p m name

theorem mixinDecision_of_spread {d : StyledDeclaration} {template : Css.Template Node} {request : SlotRequest}
    {slot : Css.PlacedSlot Node} {name : String} (h : MixinSite p m parts d template request slot name)
    (hblock : ((Component.started d).placeOf request).isBlock = true)
    (hown : ((Component.started d).placeOf request).isNested = false) :
    (componentPlant p m parts).Handles slot request (Component.started d)
      (.reference (p.settings.stylesName ++ "." ++ (parts.helpers.mixinKeys.get? name).getD name)) := by
  apply (h.stands.handles_iff _).mpr
  rw [Interpolation.mixinDecision, if_pos hblock, hown, if_neg Bool.false_ne_true]
  rfl

/-- The references to mixins resolve exactly if every mixin that is spread has been converted. -/
theorem mixinsResolve_iff (hbuilt : Built p m parts) : MixinsResolve p m parts ↔ SpreadsConverted p m parts := by
  constructor
  · intro h d template request slot name hsite hblock hown
    refine Classical.byContradiction fun hfails => ?_
    have hrefuses := h.reported hsite hfails (mixinDecision_of_spread hsite hblock hown)
    exact Component.not_refuses_reference _ _ _ _ _ hrefuses
  · intro h
    constructor
    · intro d template request slot name hsite ref hhandles
      have hdecision := (hsite.stands.handles_iff _).mp hhandles
      unfold Interpolation.mixinDecision at hdecision
      split at hdecision
      · next hblock =>
          split at hdecision
          · cases hdecision
          · next hnested =>
              cases hdecision
              have hconverted := h hsite hblock (Bool.eq_false_iff.mpr hnested)
              obtain ⟨key, hentry, hkey⟩ := hbuilt.exists_entry hsite.stands.mem_mixins hconverted
              refine ⟨key, hentry, ?_⟩
              rw [show (componentPlant p m parts).env.mixinKeys.get? name = some key from hkey]
              rfl
      · cases hdecision
    · intro d template request slot name hsite hfails decision hhandles
      rw [(hsite.stands.handles_iff _).mp hhandles, Interpolation.mixinDecision]
      split
      · next hblock =>
          split
          · exact Component.refuses_bail _ _ _ _ _
          · next hnested => exact absurd (h hsite hblock (Bool.eq_false_iff.mpr hnested)) hfails
      · exact Component.refuses_bail _ _ _ _ _

end

/-! ## Two modules -/

/-- The names of the tags in a text, as far as they can take types. -/
def typedTags (code : String) : List String :=
  (Module.tagNames (Tsx.Source.read code).root).filter fun tag => !tag.isEmpty

/-- A text read as a module in which no tag takes types. -/
def readUntyped (code path : String) : Module :=
  { text := code, bytes := Text.encode code, root := (Tsx.Source.read code).root
    hasErrors := (Tsx.Source.read code).hasErrors, path }

/-- What holds of a module in which no tag takes types, if its tags are imported in order. -/
def holdsOfUntyped (code path : String) (check : Module → Bool) : Bool :=
  decide ((typedTags code).Pairwise fun a b => decide (a ≤ b) = true) &&
    (Module.TypeSpan.findFrom ((typedTags code).map Text.encode) (Text.encode code).length none 0
      (Text.encode code)).isEmpty &&
    check (readUntyped code path)

theorem of_holdsOfUntyped {code path : String} {check : Module → Bool}
    (h : holdsOfUntyped code path check = true) : check (Module.read code path) = true := by
  obtain ⟨h, hcheck⟩ := Bool.and_eq_true_iff.mp h
  obtain ⟨hsorted, hnone⟩ := Bool.and_eq_true_iff.mp h
  have htags := List.mergeSort_of_pairwise (of_decide_eq_true hsorted)
  rw [typedTags] at htags
  have hspans : Module.TypeSpan.findAll (Text.encode code) (Module.tagNames (Tsx.Source.read code).root) = [] := by
    unfold Module.TypeSpan.findAll
    dsimp only
    split
    · rfl
    · rw [htags]
      exact List.isEmpty_iff.mp hnone
  unfold Module.read
  dsimp only
  rw [hspans]
  exact hcheck

/-- A component of a module spreads a mixin of a name. -/
def spreads (p : Project) (m : Module) (parts : Parts) (name : String) : Bool :=
  let plant := componentPlant p m parts
  (declarationsOf m).styled.any fun d =>
    !(findingsOf m).skipped.contains d.name &&
      ((Component.build? plant d).run { store := emptyWorkshop }).1.toOption.join.isSome &&
      match Css.Template.read d.template.segments d.template.expressions with
      | .error _ => false
      | .ok template =>
        let start := Component.started d
        (plant.due template start ((plant.answers template start).uses {} template.root)).any fun request =>
          (start.placeOf request).isBlock && !(start.placeOf request).isNested &&
            (template.slot? request.index).any fun slot =>
              (Interpolation.decideByAdapter plant.env (plant.classified slot request)
                (start.placeOf request)).isNone &&
                (plant.classified slot request).mixinName == some name

/-- The parts of a module, if they can be built. -/
def parts? (p : Project) (m : Module) : Option Parts :=
  ((buildParts (plantOf p m) (declarationsOf m) (findingsOf m).skipped).run (startOf m)).1.toOption

theorem built_of_parts? {p : Project} {m : Module} {parts : Parts} (h : parts? p m = some parts) :
    Built p m parts := by
  unfold parts? at h
  unfold Built
  cases hrun : (buildParts (plantOf p m) (declarationsOf m) (findingsOf m).skipped).run (startOf m) with
  | mk result s =>
      rw [hrun] at h
      cases result with
      | error f => cases h
      | ok built =>
          cases h
          exact ⟨s, rfl⟩

theorem exists_site_of_spreads {p : Project} {m : Module} {parts : Parts} {name : String}
    (hname : name.isEmpty = false) (h : spreads p m parts name = true) :
    ∃ d template request slot, MixinSite p m parts d template request slot name ∧
      ((Component.started d).placeOf request).isBlock = true ∧
      ((Component.started d).placeOf request).isNested = false := by
  obtain ⟨d, hd, h⟩ := List.any_eq_true.mp h
  dsimp only at h
  obtain ⟨hmade, h⟩ := Bool.and_eq_true_iff.mp h
  obtain ⟨hkept, hbuilt⟩ := Bool.and_eq_true_iff.mp hmade
  split at h
  · cases h
  · next template hread =>
      obtain ⟨request, hdue, h⟩ := List.any_eq_true.mp h
      obtain ⟨hplace, h⟩ := Bool.and_eq_true_iff.mp h
      obtain ⟨hblock, hown⟩ := Bool.and_eq_true_iff.mp hplace
      obtain ⟨slot, hslot, h⟩ := (Option.any_eq_true _ _).mp h
      obtain ⟨hleft, hmixin⟩ := Bool.and_eq_true_iff.mp h
      obtain ⟨c, hc⟩ := Option.isSome_iff_exists.mp hbuilt
      refine ⟨d, template, request, slot, ?_, hblock, (Bool.not_eq_true' _).mp hown⟩
      exact
        { declared := hd
          kept := (Bool.not_eq_true' _).mp hkept
          read := hread
          built := by
            cases hrun : (Component.build? (componentPlant p m parts) d).run { store := emptyWorkshop } with
            | mk result s' =>
                rw [hrun] at hc
                cases result with
                | error f => cases hc
                | ok c? =>
                    cases hc
                    exact ⟨_, c, s', hrun⟩
          decided := hdue
          known := hslot
          stands :=
            { left := Option.isNone_iff_eq_none.mp hleft
              mixin := eq_of_beq hmixin
              named := hname } }

/-- A component spreads a mixin of plain styles. -/
def spreadingModule : String :=
  "import \x7b css, default as styled \x7d from \"styled-components\";\n" ++
    "const m = css\x60color: red;\x60;\nexport const A = styled.a\x60$\x7bm\x7d;\x60;\n"

/-- The mixin is converted, so the reference to it resolves. -/
theorem mixinsResolve_spreadingModule : ∃ parts, Built {} (Module.read spreadingModule "f.tsx") parts ∧
    parts.helpers.mixins.names = ["m"] ∧
    spreads {} (Module.read spreadingModule "f.tsx") parts "m" = true ∧
    (∃ c ∈ parts.arena.values, c.mixinRefs = ["styles.m"]) ∧
    MixinsResolve {} (Module.read spreadingModule "f.tsx") parts := by
  have hcheck : holdsOfUntyped spreadingModule "f.tsx" (fun m => (parts? {} m).any fun parts =>
      parts.helpers.mixins.names == ["m"] && spreads {} m parts "m" &&
        parts.arena.values.any (·.mixinRefs == ["styles.m"]) &&
        (declarationsOf m).mixins.all fun mixin =>
          (mixinStyles (plantOf {} m) mixin).toOption.join.isSome) = true := by
    rw [holdsOfUntyped, typedTags, readUntyped, Tsx.Source.read_eq_ofChars (show spreadingModule.toList = _ from
      Text.toList_append_of String.toList_ofList String.toList_ofList)]
    decide +kernel
  obtain ⟨parts, hparts, hcheck⟩ := (Option.any_eq_true _ _).mp (of_holdsOfUntyped hcheck)
  obtain ⟨hcheck, haccepts⟩ := Bool.and_eq_true_iff.mp hcheck
  obtain ⟨hcheck, hrefs⟩ := Bool.and_eq_true_iff.mp hcheck
  obtain ⟨hnames, hspreads⟩ := Bool.and_eq_true_iff.mp hcheck
  obtain ⟨c, hc, href⟩ := List.any_eq_true.mp hrefs
  have hbuilt := built_of_parts? hparts
  refine ⟨parts, hbuilt, eq_of_beq hnames, hspreads, ⟨c, hc, eq_of_beq href⟩, ?_⟩
  apply (mixinsResolve_iff hbuilt).mpr
  intro d template request slot name hsite hblock hown mixin hmixin hname
  have hstyles := List.all_eq_true.mp haccepts mixin hmixin
  cases hresult : mixinStyles (plantOf {} (Module.read spreadingModule "f.tsx")) mixin with
  | error f =>
      rw [hresult] at hstyles
      cases hstyles
  | ok styles =>
      rw [hresult] at hstyles
      obtain ⟨found, rfl⟩ := Option.isSome_iff_exists.mp (show styles.isSome = true from hstyles)
      exact ⟨found, hresult⟩

/-- A component spreads a mixin that depends on a prop. -/
def danglingModule : String :=
  "import \x7b css, default as styled \x7d from \"styled-components\";\n" ++
    "const m = css\x60color: $\x7bp => p.c\x7d;\x60;\nexport const A = styled.a\x60$\x7bm\x7d;\x60;\n"

/-- The mixin is not converted, and the component refers to it all the same. -/
theorem not_mixinsResolve_danglingModule : ∃ parts, Built {} (Module.read danglingModule "f.tsx") parts ∧
    parts.helpers.mixins = [] ∧ (∃ c ∈ parts.arena.values, c.mixinRefs = ["styles.m"]) ∧
    ¬ MixinsResolve {} (Module.read danglingModule "f.tsx") parts := by
  have hcheck : holdsOfUntyped danglingModule "f.tsx" (fun m => (parts? {} m).any fun parts =>
      parts.helpers.mixins.isEmpty && spreads {} m parts "m" &&
        parts.arena.values.any (·.mixinRefs == ["styles.m"])) = true := by
    rw [holdsOfUntyped, typedTags, readUntyped, Tsx.Source.read_eq_ofChars (show danglingModule.toList = _ from
      Text.toList_append_of String.toList_ofList String.toList_ofList)]
    decide +kernel
  obtain ⟨parts, hparts, hcheck⟩ := (Option.any_eq_true _ _).mp (of_holdsOfUntyped hcheck)
  obtain ⟨hcheck, hrefs⟩ := Bool.and_eq_true_iff.mp hcheck
  obtain ⟨hnone, hspreads⟩ := Bool.and_eq_true_iff.mp hcheck
  obtain ⟨c, hc, href⟩ := List.any_eq_true.mp hrefs
  have hmixins : parts.helpers.mixins = [] := List.isEmpty_iff.mp hnone
  refine ⟨parts, built_of_parts? hparts, hmixins, ⟨c, hc, eq_of_beq href⟩, fun h => ?_⟩
  obtain ⟨d, template, request, slot, hsite, hblock, hown⟩ := exists_site_of_spreads (by decide) hspreads
  obtain ⟨key, hkey, -⟩ := h.resolves hsite (mixinDecision_of_spread hsite hblock hown)
  rw [hmixins] at hkey
  cases hkey

end Restyle.Conversion
