import Mathlib.Data.List.Forall2
import Restyle.Proofs.Carrying
import Restyle.Proofs.Keying

/-!
# Defaults of entries that come later

The styles of a variant, and the entries for a component inside others, are applied on top of styles that are
there already.  A conditional map in them would reset its property outside of its conditions, unless it has a
default.  A variant gets the value of the styles of its component as they are built, where its own branches have
set none; an entry that holds under a condition gets the value of the component inside as the selector meets it.
Up to then no pass has touched a value outside of all conditions, so both are values as they were built.
-/

namespace Restyle.Lowering

open Restyle.Style (Key Value Object)

theorem baseValue_of_standing? {styles : Object} {property : Key} {value : Value}
    (h : standing? styles property = some value) :
    baseValue styles property = value ∧ value.isNull = false ∧ value.isObject = false := by
  obtain ⟨hvalue, hplain⟩ := Option.filter_eq_some_iff.mp h
  cases hvalue
  simpa using hplain

/-- Where an entry has a conditional map for a property, a certain value holds outside of its conditions. -/
def FallsTo (entry : Object) (property : Key) (value : Value) : Prop :=
  ∀ map : Object, entry.get? property = some (.obj map) → map.isConditional = true →
    map.get? Key.default = some value

/-- The value of a map outside of its conditions: its own one, or that of the styles below it. -/
def fallback (own base : Value) : Value :=
  if own.isNull then base else own

end Restyle.Lowering

namespace Restyle.Component

open Restyle.Interpolation (Branch)
open Restyle.Lowering (baseValue standing? baseValue_of_map baseValue_of_standing? FallsTo fallback)
open Restyle.Module (StyledDeclaration)
open Restyle.Style (Key Value Object)

/-! ## Variants -/

/-- The branches that the slots of a declaration give, before they are filled from the styles around them. -/
def decidedBranches (plant : Plant) (d : StyledDeclaration) (s : Session Workshop) : List Branch :=
  ((starting (started d) (convertTemplate? plant d.template)).run s).2.store.component.variants

/-- A branch with the defaults that styles give it. -/
def filled (styles : Object) (b : Branch) : Branch :=
  { b with styles := b.styles.map fun (key, value) => (key, withBaseDefault styles key value) }

/-- The variants of a component that has been built are the branches of its slots, filled from its styles. -/
theorem variants_build? {plant : Plant} {d : StyledDeclaration} {c : Component} {s s' : Session Workshop}
    (h : (build? plant d).run s = (.ok (some c), s')) :
    c.variants = (decidedBranches plant d s).map (filled c.styles) := by
  obtain ⟨styles, t, hconvert, rfl, hrest⟩ := exists_converted_of_build? h
  have hdecided : decidedBranches plant d s = t.store.component.variants := by
    rw [decidedBranches, run_starting]
    exact congrArg (·.2.store.component.variants) hconvert
  rw [hdecided]
  refine hrest (fun s => s.store.component.variants = t.store.component.variants.map (filled s.store.component.styles))
    (fun _ _ _ hs => hs) (fun f hf s hs => ?_) rfl
  obtain ⟨_, _, _, _, heq⟩ := hf s.store.component
  show (f s.store.component).variants = List.map (filled (f s.store.component).styles) _
  rw [heq]
  exact hs

theorem withBaseDefault_obj {styles : Object} {property : Key} {value : Value}
    (hstanding : standing? styles property = some value) (map : Object) :
    withBaseDefault styles property (.obj map) =
      if Object.isConditional map && ((Object.get? map Key.default).getD .null).isNull then
        .obj (Object.set map Key.default value)
      else .obj map := by
  obtain ⟨hbase, hnull, hobject⟩ := baseValue_of_standing? hstanding
  have hread : withBaseDefault styles property (.obj map) =
      if Object.isConditional map && ((Object.get? map Key.default).getD .null).isNull then
        if (baseValue styles property).isNull || (baseValue styles property).isObject then .obj map
        else .obj (Object.set map Key.default (baseValue styles property))
      else .obj map := rfl
  rw [hread, hbase, hnull, hobject]
  rfl

/-- A map of a variant has its own default, or the value that the styles have outside of all conditions. -/
theorem fallsTo_filled {styles : Object} {property : Key} {value : Value}
    (hstanding : standing? styles property = some value) (b : Branch) :
    FallsTo (filled styles b).styles property (fallback (baseValue b.styles property) value) := by
  intro map hget hmap
  have hfind : (filled styles b).styles.get? property =
      (b.styles.get? property).map (withBaseDefault styles property) :=
    Object.get?_map (f := fun entry => (entry.1, withBaseDefault styles entry.1 entry.2)) (fun _ => rfl)
      b.styles property
  rw [hfind] at hget
  obtain ⟨old, hold, hfilled⟩ := Option.map_eq_some_iff.mp hget
  cases old with
  | obj own =>
      rw [withBaseDefault_obj hstanding] at hfilled
      split at hfilled
      · next hopen =>
          obtain ⟨hown, hnull⟩ := Bool.and_eq_true_iff.mp hopen
          cases hfilled
          rw [Object.get?_set_self, baseValue_of_map hold hown, fallback, if_pos hnull]
      · next hclosed =>
          cases hfilled
          obtain ⟨default, hdefault⟩ := Option.isSome_iff_exists.mp
            ((Object.has_iff_mem_keys map Key.default).mpr ((Object.isConditional_iff map).mp hmap).2)
          rw [hmap, hdefault, Option.getD_some, Bool.true_and] at hclosed
          rw [baseValue_of_map hold hmap, hdefault, Option.getD_some, fallback, if_neg hclosed]
  | _ => cases hfilled

end Restyle.Component

namespace Restyle.Lowering

open Restyle.Component (Plant decidedBranches filled)
open Restyle.Conversion (buildComponents)
open Restyle.Interpolation (Branch)
open Restyle.Module (Declarations)
open Restyle.Style (Key Value Object)

/-! ## Entries for components inside -/

section

variable {pass : Pass} {adder : Adder} {settings : Settings} {name : String} {P : Arena → Prop}

/-- What the selectors of a component add is added to components that are as the lowering before keeps them. -/
theorem mem_selectorLog
    (hstep : ∀ arena c selector body lowered, P arena → arena.get? name = some c →
      pass.lower? settings arena c selector (currentBody c selector body) = some lowered →
        P (arena.set name lowered.component))
    {arena : Arena} (harena : P arena) {selectors : List (String × Object)} {a : Addition}
    (h : a ∈ selectorLog pass adder settings name arena selectors) :
    ∃ arena c selector body, P arena ∧ a ∈ adder settings arena c selector body := by
  induction selectors generalizing arena with
  | nil => cases h
  | cons entry rest ih =>
      obtain ⟨selector, body⟩ := entry
      rw [selectorLog] at h
      split at h
      · cases h
      · next c hc =>
          dsimp only at h
          split at h
          · exact ih harena h
          · next lowered hlower =>
              rcases List.mem_append.mp h with h | h
              · exact ⟨arena, c, selector, _, harena, h⟩
              · exact ih (hstep _ _ _ _ _ harena hc hlower) h

theorem mem_visitLog
    (hstep : ∀ arena c selector body lowered, P arena → arena.get? name = some c →
      pass.lower? settings arena c selector (currentBody c selector body) = some lowered →
        P (arena.set name lowered.component))
    (hvisit : ∀ other, Work.Keeps (fun s => P s.store) (runOn pass settings other))
    {names : List String} {arena : Arena} (harena : P arena) {a : Addition}
    (h : a ∈ visitLog pass adder settings name arena names) :
    ∃ arena c selector body, P arena ∧ a ∈ adder settings arena c selector body := by
  induction names generalizing arena with
  | nil => cases h
  | cons other names ih =>
      rw [visitLog] at h
      rcases List.mem_append.mp h with h | h
      · split at h
        · split at h
          · exact mem_selectorLog hstep harena h
          · cases h
        · cases h
      · exact ih (hvisit other { store := arena } harena) h

end

/-- An addition for a component inside takes over the styles that this component has at that time. -/
theorem of_mem_insideAdditions {settings : Settings} {arena : Arena} {c : Component} {selector : String}
    {body : Object} {a : Addition} (h : a ∈ insideAdditions settings arena c selector body) {target : String}
    (htarget : a.target = .component target) {t : Component} (ht : arena.get? target = some t) :
    a.element = none ∧ a.fallbacks = t.styles := by
  unfold insideAdditions at h
  split at h
  · dsimp only at h
    split at h
    · cases h
    · cases List.mem_singleton.mp h
      cases htarget
      rw [ht]
      exact ⟨rfl, rfl⟩
  · cases h

/-- No other additions are made for components. -/
theorem not_component_of_mem {settings : Settings} {arena : Arena} {c : Component} {selector target : String}
    {body : Object} {a : Addition} {adder : Adder}
    (hadder : adder = childAdditions ∨ adder = attributeAdditions ∨ adder = siblingAdditions)
    (h : a ∈ adder settings arena c selector body) : a.target ≠ .component target := by
  rcases hadder with rfl | rfl | rfl
  · unfold childAdditions at h
    split at h
    · cases List.mem_singleton.mp h
      exact nofun
    · cases h
  · unfold attributeAdditions at h
    split at h
    · cases List.mem_singleton.mp h
      exact nofun
    · cases h
  · unfold siblingAdditions at h
    dsimp only at h
    split at h
    · cases List.mem_singleton.mp h
      exact nofun
    · cases List.mem_singleton.mp h
      exact nofun
    · split at h
      · cases h
      · cases List.mem_singleton.mp h
        exact nofun
    · cases h

/-- The passes up to the one for components inside others let all values outside of conditions stand. -/
theorem Has.lower_rests {pass : Pass} (hpass : pass = universal ∨ pass = descendant) {settings : Settings}
    {name target selector : String} {property : Key} {value? : Option Value} {arena : Arena} {c : Component}
    {body : Object} {lowered : Lowered} (h : Has target (fun t => Rests property value? t.styles) arena)
    (hc : arena.get? name = some c)
    (hlower : pass.lower? settings arena c selector (currentBody c selector body) = some lowered) :
    Has target (fun t => Rests property value? t.styles) (arena.set name lowered.component) := by
  by_cases hname : name = target
  · subst hname
    obtain ⟨d, hd, hrests⟩ := h
    cases hc.symm.trans hd
    refine ⟨_, Table.get?_set_self _ _ _, ?_⟩
    exact (carries_rests hpass).lowers settings arena c selector body lowered hrests trivial hlower
  · exact h.set_other hname _

/-- What is added for a component inside falls back to a value that this component has had from the start. -/
theorem standing?_fallbacks {settings : Settings} {name target : String} {arena : Arena} {a : Addition}
    (ha : a ∈ additions settings name arena) (htarget : a.target = .component target) {t : Component}
    (ht : arena.get? target = some t) (hdistinct : DistinctKeys t) (property : Key) :
    a.element = none ∧ standing? a.fallbacks property = standing? t.styles property := by
  let R (t' : Component) : Prop := Rests property (standing? t.styles property) t'.styles
  have hstart : Has target R arena := ⟨t, ht, hdistinct, rfl⟩
  have hother : ∀ {pass : Pass} {adder : Adder} {arena : Arena} {names : List String},
      adder = childAdditions ∨ adder = attributeAdditions ∨ adder = siblingAdditions →
        a ∉ visitLog pass adder settings name arena names := by
    intro pass adder arena names hadder hmem
    obtain ⟨_, _, _, _, -, hmem⟩ := mem_visitLog (P := fun _ => True) (fun _ _ _ _ _ _ _ _ => trivial)
      (fun _ _ _ => trivial) trivial hmem
    exact not_component_of_mem hadder hmem htarget
  simp only [additions, adders, passLog, List.mem_append, List.not_mem_nil, or_false] at ha
  rcases ha with ha | ha | ha | ha
  · exact absurd ha (hother (.inl rfl))
  · have hmiddle : Has target R (ended (universal.run settings) arena) :=
      (carries_rests (.inl rfl)).run_of_closed rfl settings target { store := arena } hstart
    obtain ⟨mid, c, selector, body, ⟨t', ht', hrests⟩, hmem⟩ := mem_visitLog (P := Has target R)
      (fun _ _ _ _ _ hhas hc hlower => hhas.lower_rests (.inr rfl) hc hlower)
      (fun other => (carries_rests (.inr rfl)).runOn settings target other) hmiddle ha
    obtain ⟨helement, hfallbacks⟩ := of_mem_insideAdditions hmem htarget ht'
    rw [hfallbacks]
    exact ⟨helement, hrests.standing⟩
  · exact absurd ha (hother (.inr (.inl rfl)))
  · exact absurd ha (hother (.inr (.inr rfl)))

/-- A map of an addition under a condition has the value that the component inside has outside of all conditions. -/
theorem Addition.fallsTo_styles {a : Addition} (helement : a.element = none) (hcondition : a.condition.isSome = true)
    {property : Key} (hproperty : property.isPseudoElement = false) {value : Value}
    (hstanding : standing? a.fallbacks property = some value) : FallsTo a.styles property value := by
  intro map hget _
  obtain ⟨condition, hcondition⟩ := Option.isSome_iff_exists.mp hcondition
  have hstyles : a.styles = a.body.map a.place := by
    unfold Addition.styles
    rw [helement]
  rw [hstyles, a.get?_map_place] at hget
  obtain ⟨old, -, hplace⟩ := Option.map_eq_some_iff.mp hget
  have hread : a.place (property, old) =
      (property, .obj [(Key.default, baseValue a.fallbacks property), (condition, old)]) := by
    unfold Addition.place
    rw [hcondition]
    exact if_neg (by simp [hproperty])
  rw [hread] at hplace
  cases hplace
  rw [Object.get?_cons, if_pos rfl, (baseValue_of_standing? hstanding).1]

/-! ## All entries -/

/-- A component has a plain value for a property outside of all conditions, once built and once lowered. -/
def Stands (built lowered : Component) (property : Key) (value : Value) : Prop :=
  standing? built.styles property = some value ∧ standing? lowered.styles property = some value

/--
The entries of a component fall back to the styles that they are applied on top of.  `decided` are the branches
that its slots give, `built` are all components before lowering, and `c` is the component after it.
-/
structure FollowsBase (settings : Settings) (built : Arena) (name : String) (decided : List Branch)
    (c : Component) : Prop where
  /-- A map of a variant has its own default, or the value of the component. -/
  variants : ∀ own, built.get? name = some own →
    List.Forall₂ (fun branch variant : Branch => variant.name = branch.name ∧
      ∀ property value, Stands own c property value →
        FallsTo variant.styles property (fallback (baseValue branch.styles property) value))
      decided c.variants
  /-- A map for a component inside, which holds under a condition, has the value of that component. -/
  inside : ∀ entry property a target t t' value,
    Addition.lastNaming (additions settings name built) entry property = some a →
    a.target = .component target → a.condition.isSome = true → property.isPseudoElement = false →
    built.get? target = some t → (ended (lowerAll settings) built).get? target = some t' →
    Stands t t' property value → FallsTo (Addition.entryOf c.extraStyles entry) property value
  /-- The value of a component that no written body names is the same once built and once lowered. -/
  stays : ∀ other d d' property, built.get? other = some d →
    (ended (lowerAll settings) built).get? other = some d' → property.isProperty = true →
    Undisturbed d.styles property → standing? d'.styles property = standing? d.styles property

/-- Components that have been built hang on no custom properties. -/
theorem injecting_buildComponents {plant : Plant} {d : Declarations} {excluded : List String}
    {built : Arena × List String} {w w' : Session Component.Workshop}
    (h : (buildComponents plant d excluded).run w = (.ok built, w')) : built.1.All Injecting := by
  refine Conversion.all_buildComponents (fun declaration _ c s s' hbuild i hi => ?_) h
  rw [Component.of_build? Component.steady_injections hbuild rfl] at hi
  cases hi

/--
The entries of every component that has been built and lowered fall back to the styles that they are applied on
top of, if the adapter decides on no styles with a repeated key.
-/
theorem followsBase {plant : Plant} {d : Declarations} {excluded : List String}
    {built : Arena × List String} {w w' : Session Component.Workshop}
    (hbuild : (buildComponents plant d excluded).run w = (.ok built, w')) (hadapter : plant.env.adapter.Tidy)
    (settings : Settings) {name : String} {own : Component} (hown : built.1.get? name = some own) :
    ∃ declaration ∈ d.styled, ∃ v v', (Component.build? plant declaration).run v = (.ok (some own), v') ∧
      ∃ c, (ended (lowerAll settings) built.1).get? name = some c ∧
        FollowsBase settings built.1 name (decidedBranches plant declaration v) c := by
  have hdeclared : built.1.All fun c => ∃ declaration ∈ d.styled, ∃ v v',
      (Component.build? plant declaration).run v = (.ok (some c), v') :=
    Conversion.all_buildComponents (fun declaration hmem c v v' hrun => ⟨declaration, hmem, v, v', hrun⟩) hbuild
  have hkeyed := Conversion.keyed_buildComponents hadapter hbuild
  have hinjecting := injecting_buildComponents hbuild
  obtain ⟨declaration, hmem, v, v', hrun⟩ := hdeclared.of_get? hown
  obtain ⟨c, hc, hvariants⟩ := variants_lowerAll settings (s := { store := built.1 }) hinjecting hown
  obtain ⟨⟨c', hc', hextra⟩, hwell⟩ := extraStyles_lowerAll settings hown (hkeyed.of_get? hown).bodies
  cases (show _ = some c from hc).symm.trans hc'
  refine ⟨declaration, hmem, v, v', hrun, c, hc, ?_, ?_, ?_⟩
  · intro own' hown'
    cases hown.symm.trans hown'
    rw [hvariants, Component.variants_build? hrun, List.forall₂_map_right_iff, List.forall₂_same]
    exact fun branch _ => ⟨rfl, fun property value hstands => Component.fallsTo_filled hstands.1 branch⟩
  · intro entry property a target t t' value hlast htarget hcondition hproperty ht _ hstands map hget
    have ha : a ∈ additions settings name built.1 := (List.mem_filter.mp (List.mem_of_getLast? hlast)).1
    obtain ⟨helement, hfallbacks⟩ := standing?_fallbacks ha htarget ht (hkeyed.of_get? ht).styles property
    rw [hextra, Addition.get?_foldl_addTo (fun a ha => (hwell a ha).distinct), hlast] at hget
    exact Addition.fallsTo_styles helement hcondition hproperty (hfallbacks.trans hstands.1) map hget
  · intro other e e' property he he' hproperty hundisturbed
    obtain ⟨e'', he'', hstanding⟩ := standing?_lowerAll settings (s := { store := built.1 }) hinjecting he
      (hkeyed.of_get? he).styles hproperty hundisturbed
    cases he'.symm.trans he''
    exact hstanding

/-! ## A link and a button -/

/-- The text of the default of the conditional map that an entry has for a property. -/
def defaultText? (entry : Object) (property : String) : Option String :=
  match entry.get? (.name property) with
  | some (.obj map) => if Object.isConditional map then (Object.get? map Key.default).bind Value.text? else none
  | _ => none

/-- A declaration with the texts and the expressions of a template. -/
def declaration (name base : String) (segments expressions : List String) : Module.StyledDeclaration :=
  { name, base, baseIsIntrinsic := true, location := ⟨1, 1⟩
    template := { segments, expressions := expressions.filterMap fun code => (Tsx.readExpression code).toOption }
    statement := { kind := .program, start := 0, stop := 0, text := "" } }

/-- What is known in a module that has an icon and the tag for style blocks. -/
def iconPlant : Plant :=
  { env := { around := { styled := ["Icon"], cssName := some "css" } } }

theorem tidy_iconPlant : iconPlant.env.adapter.Tidy :=
  .of_silent rfl rfl

/-- The components of some declarations as they are built. -/
def builtFrom (styled : List Module.StyledDeclaration) :
    Except Fault (Arena × List String) × Session Component.Workshop :=
  (buildComponents iconPlant { styled } []).run { store := Conversion.emptyWorkshop }

/-- What holds of a component as it is built and as it is in the end. -/
def holdsOfComponent (styled : List Module.StyledDeclaration) (name : String)
    (check : Arena → Component → Component → Bool) : Bool :=
  match (builtFrom styled).1 with
  | .error _ => false
  | .ok built =>
    match built.1.get? name, (ended (lowerAll {}) built.1).get? name with
    | some own, some c => check built.1 own c
    | _, _ => false

theorem exists_of_holdsOfComponent {styled : List Module.StyledDeclaration} {name : String}
    {check : Arena → Component → Component → Bool} (h : holdsOfComponent styled name check = true) :
    ∃ built w own c, builtFrom styled = (.ok built, w) ∧ built.1.get? name = some own ∧
      (ended (lowerAll {}) built.1).get? name = some c ∧ check built.1 own c = true := by
  unfold holdsOfComponent at h
  cases hbuild : builtFrom styled with
  | mk result w =>
      rw [hbuild] at h
      cases result with
      | error f => cases h
      | ok built =>
          dsimp only at h
          split at h
          · next own c hown hc => exact ⟨built, w, own, c, rfl, hown, hc, h⟩
          · cases h

/-- An icon, and a link with a variant for a pseudo state in which the icon looks different as well. -/
def linkDeclarations : List Module.StyledDeclaration :=
  [declaration "Icon" "i" ["color: black;"] [],
    declaration "Link" "a" ["color: red; ", "; &:hover ", " \x7b color: blue; \x7d"]
      ["p => p.on ? css\x60&:hover \x7b color: green; \x7d\x60 : \"\"", "Icon"]]

/-- The variant of the link falls back to the link, and the entry for the icon to the icon. -/
theorem followsBase_link : ∃ built w own decided c, builtFrom linkDeclarations = (.ok built, w) ∧
    iconPlant.env.adapter.Tidy ∧ built.1.get? "Link" = some own ∧ FollowsBase {} built.1 "Link" decided c ∧
    c.variants.map (fun b => defaultText? b.styles "color") = [some "red"] ∧
    c.extraStyles.map (fun entry => defaultText? entry.2 "color") = [some "black"] := by
  have hcheck : holdsOfComponent linkDeclarations "Link" (fun _ _ c =>
      decide (c.variants.map (fun b => defaultText? b.styles "color") = [some "red"]) &&
        decide (c.extraStyles.map (fun entry => defaultText? entry.2 "color") = [some "black"])) = true := by
    decide +kernel
  obtain ⟨built, w, own, c, hbuild, hown, hc, hall⟩ := exists_of_holdsOfComponent hcheck
  obtain ⟨hvariants, hextra⟩ := Bool.and_eq_true_iff.mp hall
  obtain ⟨declaration, -, v, _, -, c', hc', hfollows⟩ := followsBase hbuild tidy_iconPlant {} hown
  cases hc.symm.trans hc'
  exact ⟨built, w, own, _, c, hbuild, tidy_iconPlant, hown, hfollows, of_decide_eq_true hvariants,
    of_decide_eq_true hextra⟩

/--
No entry of lowered components changes a value outside of its conditions: what variants, style functions and
entries for components inside have there is what the styles have that they are applied on top of.
-/
structure NeverResets (arena : Arena) : Prop where
  variants : ∀ name c b property value, arena.get? name = some c → b ∈ c.variants →
    standing? c.styles property = some value → FallsTo b.styles property value
  functions : ∀ name c functions key f property value, arena.get? name = some c →
    Registry.functionsOf c.dynamicEntries = .ok functions → functions.get? key = some f →
    standing? c.styles property = some value → FallsTo f.body property value
  inside : ∀ name c rule target t property value, arena.get? name = some c → rule ∈ c.elementRules →
    rule.kind = .descendantComponent → rule.target = some target → arena.get? target = some t →
    standing? t.styles property = some value →
      FallsTo (Addition.entryOf c.extraStyles rule.styleKey) property value

/-- A button whose variant has a value of its own outside of the pseudo state. -/
def buttonDeclaration : Module.StyledDeclaration :=
  declaration "Button" "button" ["color: red; ", ";"]
    ["p => p.active ? css\x60color: blue; &:hover \x7b color: green; \x7d\x60 : \"\""]

/-- The variant keeps its own value, which is not that of the button. -/
theorem not_neverResets_ownDefault : ∃ built w, builtFrom [buttonDeclaration] = (.ok built, w) ∧
    ¬ NeverResets (ended (lowerAll {}) built.1) := by
  have hcheck : holdsOfComponent [buttonDeclaration] "Button" (fun _ _ c =>
      decide ((standing? c.styles (.name "color")).bind Value.text? = some "red") &&
        c.variants.any fun b => decide (defaultText? b.styles "color" = some "blue")) = true := by
    decide +kernel
  obtain ⟨built, w, _, c, hbuild, -, hc, hboth⟩ := exists_of_holdsOfComponent hcheck
  obtain ⟨hbase, hvariant⟩ := Bool.and_eq_true_iff.mp hboth
  obtain ⟨b, hb, hdefault⟩ := List.any_eq_true.mp hvariant
  refine ⟨built, w, hbuild, fun h => ?_⟩
  obtain ⟨value, hstanding, hred⟩ := Option.bind_eq_some_iff.mp (of_decide_eq_true hbase)
  replace hdefault := of_decide_eq_true hdefault
  have hfalls := h.variants _ c b _ value hc hb hstanding
  unfold defaultText? at hdefault
  split at hdefault
  · next map hmap =>
      split at hdefault
      · next hconditional =>
          rw [hfalls map hmap hconditional, Option.bind_some, hred] at hdefault
          exact absurd hdefault (by decide)
      · cases hdefault
  · cases hdefault

end Restyle.Lowering
